import Konnekt.Mcp.Tools

/-!
# The secrets of a config file

What Claude may not read of a config file: the values of the keys that name a credential.
A document of any of the four formats is taken as a parser finds it, keys with their values
among other text; each character is marked if it belongs to such a value, and the marks go
with the characters through the redaction.
-/

namespace Konnekt.Mcp

open Go

/-! ## Documents -/

/-- A key as it is written, and the name it stands for. -/
structure SettingKey where
  written : List Char
  name : List Char

/-- What a parser finds in a properties, YAML, TOML or JSON text: a value has keys in it again. -/
inductive Settings where
  | nil
  | text (chars : List Char) (rest : Settings)
  | entry (key : SettingKey) (between : List Char) (value rest : Settings)

/-- The name has one of the words in it, in any letter case. -/
def SettingKey.isSecret (k : SettingKey) : Bool :=
  secretWords.any fun w => decide (w.toList <:+: k.name.map foldCase)

/-- The characters, each with whether it belongs to the value of a credential. -/
def Settings.marked (secret : Bool) : Settings → List (Char × Bool)
  | .nil => []
  | .text chars rest => chars.map (·, secret) ++ rest.marked secret
  | .entry key between value rest =>
    (key.written ++ between).map (·, secret) ++ value.marked (secret || key.isSecret) ++
      rest.marked secret

def Settings.source (d : Settings) : String := String.ofList ((d.marked false).map Prod.fst)

def Settings.lines (d : Settings) : List (List (Char × Bool)) :=
  (d.marked false).splitOnP (·.1 == '\n')

/-! ## The redaction of what characters carry -/

/-- `redactLine` on characters that carry something. -/
def redactWith {α : Type} (char : α → Char) (redacted l : List α) : List α :=
  let key := l.takeWhile fun c => char c != ':' && char c != '='
  match l.drop key.length with
  | [] => l
  | sep :: value =>
    if isSecretKey (key.map char) ∧ value.dropWhile (fun c => isBlank (char c)) ≠ [] then
      key ++ sep :: value.takeWhile (fun c => isBlank (char c)) ++ redacted
    else l

/-- A line after the redaction: what is put in belongs to no value. -/
def redactMarked : List (Char × Bool) → List (Char × Bool) :=
  redactWith Prod.fst ("REDACTED".toList.map (·, false))

/-- What is left of a line that is redacted: the key of a credential, `:` or `=`, and blanks. -/
def IsSecretHead (head : List Char) : Prop :=
  ∃ key sep blanks, head = key ++ sep :: blanks ∧ isSecretKey key = true ∧
    (∀ c ∈ key, c ≠ ':' ∧ c ≠ '=') ∧ (sep = ':' ∨ sep = '=') ∧ ∀ c ∈ blanks, isBlank c = true

section

variable {α : Type} {char : α → Char} {redacted l head value : List α}

/-- There is a value, and it does not begin with a blank. -/
def StartsVisible (char : α → Char) (value : List α) : Prop :=
  ∃ c t, value = c :: t ∧ isBlank (char c) = false

theorem redactWith_of_head (hhead : IsSecretHead (head.map char))
    (hvalue : StartsVisible char value) :
    redactWith char redacted (head ++ value) = head ++ redacted := by
  obtain ⟨key', sep', blanks', heq, hsecret, hkey, hsep, hblanks⟩ := hhead
  obtain ⟨key, rest, rfl, rfl, hrest⟩ := List.map_eq_append_iff.1 heq
  obtain ⟨sep, blanks, rfl, rfl, rfl⟩ := List.map_eq_cons_iff.1 hrest
  obtain ⟨c, t, rfl, hc⟩ := hvalue
  have hstop : (char sep != ':' && char sep != '=') = false := by
    cases hsep with
    | inl h => simp [h]
    | inr h => simp [h]
  have htake : (key ++ sep :: blanks ++ c :: t).takeWhile
      (fun c => char c != ':' && char c != '=') = key := by
    rw [List.append_assoc, List.takeWhile_append_of_pos]
    · rw [List.cons_append, List.takeWhile_cons_of_neg (by simp [hstop]), List.append_nil]
    · intro d hd
      have hne := hkey _ (List.mem_map_of_mem hd)
      simp [hne.1, hne.2]
  have hdrop : (key ++ sep :: blanks ++ c :: t).drop key.length = sep :: (blanks ++ c :: t) := by
    rw [List.append_assoc, List.drop_left, List.cons_append]
  have hblank : ∀ d ∈ blanks, isBlank (char d) = true :=
    fun d hd => hblanks _ (List.mem_map_of_mem hd)
  rw [redactWith, htake, hdrop]
  dsimp only
  have hvisible : (blanks ++ c :: t).dropWhile (fun c => isBlank (char c)) ≠ [] := by
    rw [List.dropWhile_append_of_pos hblank, List.dropWhile_cons_of_neg (by simp [hc])]
    exact List.cons_ne_nil c t
  rw [if_pos ⟨hsecret, hvisible⟩, List.takeWhile_append_of_pos hblank,
    List.takeWhile_cons_of_neg (by simp [hc]), List.append_nil]

/-- A line that is changed has the key of a credential and a value. -/
theorem redactWith_eq_or (char : α → Char) (redacted l : List α) :
    redactWith char redacted l = l ∨
      ∃ head value, l = head ++ value ∧ IsSecretHead (head.map char) ∧
        StartsVisible char value := by
  rw [redactWith]
  have hline := List.takeWhile_append_dropWhile
    (p := fun c => char c != ':' && char c != '=') (l := l)
  have hkey : ∀ c ∈ l.takeWhile (fun c => char c != ':' && char c != '='),
      char c ≠ ':' ∧ char c ≠ '=' := fun c hc => by simpa using List.mem_takeWhile_imp hc
  have hdrop : l.drop (l.takeWhile fun c => char c != ':' && char c != '=').length =
      l.dropWhile fun c => char c != ':' && char c != '=' := by
    have hrest := congrArg
      (List.drop (l.takeWhile fun c => char c != ':' && char c != '=').length) hline
    rw [List.drop_left] at hrest
    exact hrest.symm
  rw [hdrop]
  generalize hk : l.takeWhile (fun c => char c != ':' && char c != '=') = key at hline hkey
  cases hrest : l.dropWhile (fun c => char c != ':' && char c != '=') with
  | nil => exact .inl rfl
  | cons sep value =>
    dsimp only
    split
    · next h =>
      have hsep : char sep = ':' ∨ char sep = '=' := by
        have hstop := List.head_dropWhile_not (fun c => char c != ':' && char c != '=')
          (by rw [hrest]; exact List.cons_ne_nil sep value)
        simpa [hrest, or_iff_not_imp_left] using hstop
      refine .inr ⟨key ++ sep :: value.takeWhile (fun c => isBlank (char c)),
        value.dropWhile fun c => isBlank (char c), ?_, ?_, ?_⟩
      · rw [List.append_assoc, List.cons_append, List.takeWhile_append_dropWhile, ← hrest, hline]
      · refine ⟨key.map char, char sep, (value.takeWhile fun c => isBlank (char c)).map char, ?_,
          h.1, ?_, hsep, ?_⟩
        · rw [List.map_append, List.map_cons]
        · exact List.forall_mem_map.2 hkey
        · refine List.forall_mem_map.2 fun c hc => ?_
          have hblank := List.mem_takeWhile_imp hc
          exact hblank
      · obtain ⟨c, t, hc⟩ := List.exists_cons_of_ne_nil h.2
        refine ⟨c, t, hc, ?_⟩
        have hstop := List.head_dropWhile_not (fun c => isBlank (char c)) h.2
        simpa [hc] using hstop
    · exact .inl rfl

theorem redactLine_eq (l : List Char) : redactLine l = redactWith id "REDACTED".toList l := by
  rw [redactLine, redactWith]
  simp only [List.map_id, id]
  cases l.drop (l.takeWhile fun c => c != ':' && c != '=').length with
  | nil => rfl
  | cons sep value => exact if_congr Iff.rfl rfl rfl

theorem startsVisible_map {value : List α} :
    StartsVisible id (value.map char) ↔ StartsVisible char value := by
  constructor
  · rintro ⟨c, t, heq, hc⟩
    obtain ⟨d, rest, rfl, rfl, -⟩ := List.map_eq_cons_iff.1 heq
    exact ⟨d, rest, rfl, hc⟩
  · rintro ⟨c, t, rfl, hc⟩
    exact ⟨char c, t.map char, rfl, hc⟩

theorem startsVisible_redacted : StartsVisible id "REDACTED".toList :=
  ⟨'R', "EDACTED".toList, by decide, by decide⟩

theorem redactLine_of_head {head value : List Char} (hhead : IsSecretHead head)
    (hvalue : StartsVisible id value) :
    redactLine (head ++ value) = head ++ "REDACTED".toList := by
  rw [redactLine_eq, redactWith_of_head (by rwa [List.map_id]) hvalue]

/-- What the characters carry makes no difference. -/
theorem map_redactWith (hredacted : redacted.map char = "REDACTED".toList) (l : List α) :
    (redactWith char redacted l).map char = redactLine (l.map char) := by
  have hcut : ∀ {head value : List α}, IsSecretHead (head.map char) →
      StartsVisible char value →
      (redactWith char redacted (head ++ value)).map char =
        redactLine ((head ++ value).map char) := by
    intro head value hhead hvalue
    rw [redactWith_of_head hhead hvalue, List.map_append, List.map_append, hredacted,
      redactLine_of_head hhead (startsVisible_map.2 hvalue)]
  rcases redactWith_eq_or char redacted l with h | ⟨head, value, rfl, hhead, hvalue⟩
  · rcases redactWith_eq_or id "REDACTED".toList (l.map char) with h' |
      ⟨head, value, heq, hhead, hvalue⟩
    · rw [h, redactLine_eq, h']
    · obtain ⟨head, value, rfl, rfl, rfl⟩ := List.map_eq_append_iff.1 heq
      rw [List.map_id] at hhead
      exact hcut hhead (startsVisible_map.1 hvalue)
  · exact hcut hhead hvalue

end

/-! ## Whole texts -/

theorem redactLine_idem (l : List Char) : redactLine (redactLine l) = redactLine l := by
  rcases redactWith_eq_or id "REDACTED".toList l with h | ⟨head, value, rfl, hhead, hvalue⟩
  · rw [← redactLine_eq] at h
    rw [h, h]
  · rw [List.map_id] at hhead
    rw [redactLine_of_head hhead hvalue, redactLine_of_head hhead startsVisible_redacted]

theorem not_mem_redactLine {l : List Char} (h : '\n' ∉ l) : '\n' ∉ redactLine l := by
  rcases redactWith_eq_or id "REDACTED".toList l with heq | ⟨head, value, rfl, hhead, hvalue⟩
  · rwa [redactLine_eq, heq]
  · rw [List.map_id] at hhead
    rw [redactLine_of_head hhead hvalue, List.mem_append, not_or]
    exact ⟨fun hmem => h (List.mem_append_left _ hmem), by decide⟩

/-- The lines of a redacted text are the redacted lines. -/
theorem split_mcpRedactSecrets (text : String) : split (mcpRedactSecrets text) '\n' =
    (split text '\n').map fun l => String.ofList (redactLine l.toList) := by
  apply split_intercalate
  · simpa [split] using splitChars_ne_nil '\n' text.toList
  · intro l hl
    obtain ⟨line, hline, rfl⟩ := List.mem_map.1 hl
    rw [String.toList_ofList]
    exact not_mem_redactLine (not_mem_of_mem_split hline)

theorem mcpRedactSecrets_idem (text : String) :
    mcpRedactSecrets (mcpRedactSecrets text) = mcpRedactSecrets text := by
  rw [mcpRedactSecrets, split_mcpRedactSecrets, List.map_map, mcpRedactSecrets]
  refine congrArg (String.intercalate "\n") (List.map_congr_left fun l _ => ?_)
  rw [Function.comp_apply, String.toList_ofList, redactLine_idem]

theorem splitChars_map_fst (l : List (Char × Bool)) : splitChars '\n' (l.map Prod.fst) =
    (l.splitOnP (·.1 == '\n')).map (·.map Prod.fst) := by
  induction l with
  | nil => rfl
  | cons c l ih =>
    rw [List.map_cons, splitChars, List.splitOnP_cons_eq_if_modifyHead, ih]
    by_cases hc : c.1 = '\n'
    · rw [if_pos hc, if_pos (by simpa using hc), List.map_cons, List.map_nil]
    · rw [if_neg hc, if_neg (by simpa using hc)]
      cases hl : l.splitOnP (·.1 == '\n') with
      | nil => exact absurd hl (List.splitOnP_ne_nil _ _)
      | cons p ps => rfl

theorem Settings.split_source (d : Settings) :
    split d.source '\n' = d.lines.map fun l => String.ofList (l.map Prod.fst) := by
  rw [split, Settings.source, String.toList_ofList, splitChars_map_fst, List.map_map]
  rfl

theorem redactMarked_fst (l : List (Char × Bool)) :
    (redactMarked l).map Prod.fst = redactLine (l.map Prod.fst) :=
  map_redactWith (by rw [List.map_map]; exact List.map_id' _) l

/-- The lines of the result, by what becomes of the marked ones. -/
theorem Settings.split_redacted (d : Settings) : split (mcpRedactSecrets d.source) '\n' =
    d.lines.map fun l => String.ofList ((redactMarked l).map Prod.fst) := by
  rw [split_mcpRedactSecrets, d.split_source, List.map_map]
  apply List.map_congr_left
  intro l _
  rw [Function.comp_apply, String.toList_ofList, redactMarked_fst]

/-! ## What is hidden -/

/-- Nothing of a credential's value is left, a line that has nothing of one is as it was, and a
second time changes nothing. -/
structure Redacts (d : Settings) : Prop where
  hidden : ∀ l ∈ d.lines, ∀ c ∈ redactMarked l, c.2 = false
  others : ∀ l ∈ d.lines, (∀ c ∈ l, c.2 = false) → redactMarked l = l
  idempotent : mcpRedactSecrets (mcpRedactSecrets d.source) = mcpRedactSecrets d.source

/-- What the pattern can do with a line: one with something of a credential's value is such a key
with a value, and nothing of one stands before; one with nothing of one is no such key, or already
reads `REDACTED`. -/
structure FitsPattern (l : List (Char × Bool)) : Prop where
  secret : (∃ c ∈ l, c.2 = true) → ∃ head value, l = head ++ value ∧
    IsSecretHead (head.map Prod.fst) ∧ StartsVisible Prod.fst value ∧ ∀ c ∈ head, c.2 = false
  other : (∀ c ∈ l, c.2 = false) → ∀ head value, l = head ++ value →
    IsSecretHead (head.map Prod.fst) → StartsVisible Prod.fst value →
      value.map Prod.fst = "REDACTED".toList

theorem hidden_iff (l : List (Char × Bool)) : (∀ c ∈ redactMarked l, c.2 = false) ↔
    ((∃ c ∈ l, c.2 = true) → ∃ head value, l = head ++ value ∧
      IsSecretHead (head.map Prod.fst) ∧ StartsVisible Prod.fst value ∧
        ∀ c ∈ head, c.2 = false) := by
  constructor
  · rintro hhidden ⟨c, hc, hsecret⟩
    rcases redactWith_eq_or Prod.fst ("REDACTED".toList.map (·, false)) l with h |
      ⟨head, value, rfl, hhead, hvalue⟩
    · rw [redactMarked, h] at hhidden
      rw [hhidden c hc] at hsecret
      cases hsecret
    · rw [redactMarked, redactWith_of_head hhead hvalue] at hhidden
      exact ⟨head, value, rfl, hhead, hvalue,
        fun c hc => hhidden c (List.mem_append_left _ hc)⟩
  · intro hsecret c hc
    by_cases hmarked : ∃ c ∈ l, c.2 = true
    · obtain ⟨head, value, rfl, hhead, hvalue, hunmarked⟩ := hsecret hmarked
      rw [redactMarked, redactWith_of_head hhead hvalue, List.mem_append] at hc
      cases hc with
      | inl hc => exact hunmarked c hc
      | inr hc =>
        obtain ⟨d, -, rfl⟩ := List.mem_map.1 hc
        rfl
    · push Not at hmarked
      rcases redactWith_eq_or Prod.fst ("REDACTED".toList.map (·, false)) l with h |
        ⟨head, value, rfl, hhead, hvalue⟩
      · rw [redactMarked, h] at hc
        simpa using hmarked c hc
      · rw [redactMarked, redactWith_of_head hhead hvalue, List.mem_append] at hc
        cases hc with
        | inl hc => simpa using hmarked c (List.mem_append_left _ hc)
        | inr hc =>
          obtain ⟨d, -, rfl⟩ := List.mem_map.1 hc
          rfl

theorem others_iff {l : List (Char × Bool)} (hl : ∀ c ∈ l, c.2 = false) : redactMarked l = l ↔
    ∀ head value, l = head ++ value → IsSecretHead (head.map Prod.fst) →
      StartsVisible Prod.fst value → value.map Prod.fst = "REDACTED".toList := by
  constructor
  · rintro h head value rfl hhead hvalue
    rw [redactMarked, redactWith_of_head hhead hvalue] at h
    rw [← List.append_cancel_left h, List.map_map]
    exact List.map_id' _
  · intro hother
    rcases redactWith_eq_or Prod.fst ("REDACTED".toList.map (·, false)) l with h |
      ⟨head, value, rfl, hhead, hvalue⟩
    · exact h
    · have hmarks : value = (value.map Prod.fst).map (·, false) := by
        rw [List.map_map]
        refine (List.map_id value).symm.trans (List.map_congr_left fun c hc => ?_)
        exact Prod.ext rfl (hl c (List.mem_append_right _ hc))
      rw [redactMarked, redactWith_of_head hhead hvalue, hmarks,
        hother head value rfl hhead hvalue]

/-- The values of the credentials are hidden, and nothing else is touched, exactly where the
pattern fits every line. -/
theorem redacts_iff (d : Settings) :
    (split (mcpRedactSecrets d.source) '\n' =
      d.lines.map fun l => String.ofList ((redactMarked l).map Prod.fst)) ∧
    (Redacts d ↔ ∀ l ∈ d.lines, FitsPattern l) := by
  refine ⟨d.split_redacted, fun h l hl => ⟨?_, fun hunmarked => ?_⟩, fun h => ⟨?_, ?_, ?_⟩⟩
  · exact (hidden_iff l).1 (h.hidden l hl)
  · exact (others_iff hunmarked).1 (h.others l hl hunmarked)
  · exact fun l hl => (hidden_iff l).2 (h l hl).secret
  · exact fun l hl hunmarked => (others_iff hunmarked).2 ((h l hl).other hunmarked)
  · exact mcpRedactSecrets_idem d.source

/-! ## A key in a list item -/

/-- A YAML list of users, of one with a password. -/
def listedUser : Settings :=
  .entry ⟨"users".toList, "users".toList⟩ ":\n- ".toList
    (.entry ⟨"password".toList, "password".toList⟩ ": ".toList (.text "hunter2".toList .nil)
      (.text ['\n'] .nil))
    .nil

/-- The dash before the key keeps the pattern from the line. -/
theorem not_redacts_listedUser : listedUser.source = "users:\n- password: hunter2\n" ∧
    mcpRedactSecrets listedUser.source = listedUser.source ∧ ¬ Redacts listedUser := by
  refine ⟨by decide +kernel, by decide +kernel, fun h => ?_⟩
  have hleft : ∃ l ∈ listedUser.lines, ∃ c ∈ redactMarked l, c.2 = true := by decide +kernel
  obtain ⟨l, hl, c, hc, hmarked⟩ := hleft
  rw [h.hidden l hl c hc] at hmarked
  cases hmarked

end Konnekt.Mcp
