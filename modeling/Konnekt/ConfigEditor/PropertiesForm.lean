import Mathlib
import Konnekt.Correctness.PropertyWrites

/-!
# The properties form and the backend

The form edits the first line of a key, and the backend believes the last one and rewrites
them all. Both trim a line before they cut it at its first `=`, each with its own idea of
what is space, and only the form knows the second mark of a comment.
-/

namespace Konnekt.ConfigEditor

open Go Server

/-! ## What the backend reads of a line -/

/-- The backend's key of what stands before the first `=` of a line. -/
def keyOf (front : String) : Option String :=
  if ['#'] <+: (trimSpace front).toList then none else some (trimSpace front)

theorem propertyOf_front {front : String} (hfront : '=' ∉ front.toList) (value : String) :
    Worlds.propertyOf (front ++ ("=" ++ value)) =
      (keyOf front).map fun key => (key, trimSpace value) := by
  rw [propertyOf_cut hfront, keyOf]
  split <;> rfl

theorem exists_front {line : String} (h : '=' ∈ line.toList) :
    ∃ front rest, line = front ++ ("=" ++ rest) ∧ '=' ∉ front.toList := by
  obtain ⟨before, after, hlist, hbefore⟩ := List.eq_append_cons_of_mem h
  refine ⟨String.ofList before, String.ofList after, ?_, by simpa using hbefore⟩
  rw [← String.toList_inj, hlist]
  simp

/-- A key the backend reads is one that it writes, if it is on one line. -/
theorem isKey_of_propertyOf {line key value : String}
    (h : Worlds.propertyOf line = some (key, value)) (hline : Worlds.hasLineBreak key = false) :
    IsKey key := by
  by_cases hmem : '=' ∈ line.toList
  · obtain ⟨front, rest, rfl, hfront⟩ := exists_front hmem
    rw [propertyOf_front hfront] at h
    obtain ⟨key', hkey, heq⟩ := Option.map_eq_some_iff.1 h
    obtain rfl : key' = key := (Prod.mk.inj heq).1
    rw [keyOf] at hkey
    split at hkey
    · cases hkey
    · next hplain =>
      obtain rfl := Option.some.inj hkey
      refine ⟨hline, fun hequals => hfront ?_, trimSpace_trimSpace front, hplain⟩
      rw [trimSpace, String.toList_ofList] at hequals
      obtain ⟨lead, trail, hsplit, -, -⟩ := exists_trim front.toList
      rw [hsplit]
      exact List.mem_append_right _ (List.mem_append_left _ hequals)
  · rw [propertyOf_of_not_mem hmem] at h
    cases h

/-! ## What the form reads and writes -/

/-- White space and line terminators, which `String.prototype.trim` takes off. -/
def isJsSpace (c : Char) : Bool :=
  let n := c.toNat
  (9 ≤ n && n ≤ 13) || n == 0x20 || n == 0xA0 || n == 0x1680 || (0x2000 ≤ n && n ≤ 0x200A) ||
    n == 0x2028 || n == 0x2029 || n == 0x202F || n == 0x205F || n == 0x3000 || n == 0xFEFF

/-- `s.trim()`. -/
def jsTrim (s : String) : String := String.ofList (trimWith isJsSpace s.toList)

/-- `s.trimEnd()`. -/
def jsTrimEnd (s : String) : String :=
  String.ofList (s.toList.reverse.dropWhile isJsSpace).reverse

/-- `s.startsWith(mark)` for a mark of one character. -/
def startsWith (s : String) (mark : Char) : Bool := s.toList.head? == some mark

/-- The entry of one line in `parseEntries`. -/
def parseEntry (line : String) : Option (String × String) :=
  let line := jsTrim line
  if line = "" || startsWith line '#' || startsWith line '!' then none
  else (cutAt '=' line).map fun (key, value) => (jsTrim key, value)

/-- `parseEntries`, with the place of each entry's line. -/
def parseEntries (content : String) : List (Nat × String × String) :=
  (split content '\n').zipIdx.filterMap fun (line, i) =>
    (parseEntry line).map fun (key, value) => (i, key, value)

/-- The keys of the fields `parsePropertiesFields` makes, one for each entry. -/
def shownKeys (content : String) : List String := (parseEntries content).map fun e => e.2.1

/-- The key of a line as `applyPropertyEdit` reads it. -/
def lineKey (line : String) : Option String :=
  let trimmed := jsTrim line
  if startsWith trimmed '#' || startsWith trimmed '!' then none
  else (cutAt '=' trimmed).map fun (key, _) => jsTrim key

/-- The line `applyPropertyEdit` writes in the place of one of the key. -/
def editedLine (key value line : String) : String :=
  String.ofList (line.toList.takeWhile isJsSpace) ++ key ++ "=" ++ value

/-- The lines with the first one of the key edited, if there is one. -/
def editLines (key value : String) : List String → Option (List String)
  | [] => none
  | line :: lines =>
    if lineKey line = some key then some (editedLine key value line :: lines)
    else (editLines key value lines).map (line :: ·)

/-- `applyPropertyEdit`. -/
def applyPropertyEdit (content key value : String) : String :=
  match editLines key value (split content '\n') with
  | some lines => "\n".intercalate lines
  | none => jsTrimEnd content ++ "\n" ++ key ++ "=" ++ value ++ "\n"

/-- A field that is shown is of a line that would be edited. -/
theorem lineKey_of_parseEntry {line : String} {e : String × String} (h : parseEntry line = some e) :
    lineKey line = some e.1 := by
  unfold parseEntry at h
  unfold lineKey
  dsimp only at h ⊢
  split at h
  · cases h
  · next hmark =>
    simp only [Bool.or_eq_true, not_or] at hmark
    rw [if_neg (by simp [hmark.1.2, hmark.2])]
    obtain ⟨cut, hcut, rfl⟩ := Option.map_eq_some_iff.1 h
    rw [hcut]
    rfl

/-- The key of a line stands in front of its first `=`. -/
theorem mem_of_lineKey {line key : String} (h : lineKey line = some key) :
    ∀ c ∈ key.toList, c ∈ line.toList ∧ c ≠ '=' := by
  unfold lineKey at h
  dsimp only at h
  split at h
  · cases h
  · obtain ⟨⟨front, rest⟩, hcut, rfl⟩ := Option.map_eq_some_iff.1 h
    obtain ⟨hline, hfront⟩ := cutAt_eq_some hcut
    intro c hc
    rw [jsTrim, String.toList_ofList] at hc
    have hc := trimWith_subset _ _ hc
    refine ⟨?_, ?_⟩
    · have hmem : c ∈ (jsTrim line).toList := by
        rw [hline, String.toList_append]
        exact List.mem_append_left _ hc
      rw [jsTrim, String.toList_ofList] at hmem
      exact trimWith_subset _ _ hmem
    · rintro rfl
      exact hfront hc

/-- A field that is shown is of a line of the text. -/
theorem exists_of_shown {content key : String} (h : key ∈ shownKeys content) :
    ∃ line ∈ split content '\n', lineKey line = some key := by
  obtain ⟨⟨i, k, value⟩, hentry, rfl⟩ := List.mem_map.1 h
  obtain ⟨⟨line, j⟩, hmem, hparse⟩ := List.mem_filterMap.1 hentry
  obtain ⟨e, he, heq⟩ := Option.map_eq_some_iff.1 hparse
  cases heq
  have hline : line ∈ split content '\n' := by
    obtain ⟨h, hget⟩ := List.mem_zipIdx' hmem
    exact hget ▸ List.getElem_mem h
  exact ⟨line, hline, lineKey_of_parseEntry he⟩

/-- The first line of a key that has one. -/
theorem exists_firstLine {key : String} {lines : List String}
    (h : ∃ line ∈ lines, lineKey line = some key) : ∃ before line after,
      lines = before ++ line :: after ∧ (∀ l ∈ before, lineKey l ≠ some key) ∧
        lineKey line = some key := by
  induction lines with
  | nil =>
    obtain ⟨line, hline, -⟩ := h
    cases hline
  | cons line lines ih =>
    by_cases hkey : lineKey line = some key
    · exact ⟨[], line, lines, rfl, fun l hl => absurd hl List.not_mem_nil, hkey⟩
    · have hlater : ∃ l ∈ lines, lineKey l = some key := by
        obtain ⟨l, hl, hlkey⟩ := h
        cases List.mem_cons.1 hl with
        | inl heq => exact absurd (heq ▸ hlkey) hkey
        | inr hmem => exact ⟨l, hmem, hlkey⟩
      obtain ⟨before, l, after, rfl, hbefore, hl⟩ := ih hlater
      exact ⟨line :: before, l, after, rfl, List.forall_mem_cons.2 ⟨hkey, hbefore⟩, hl⟩

/-- The first line of the key is edited, and no other. -/
theorem editLines_append {key line : String} {before : List String} (value : String)
    (hbefore : ∀ l ∈ before, lineKey l ≠ some key) (hline : lineKey line = some key)
    (after : List String) : editLines key value (before ++ line :: after) =
      some (before ++ editedLine key value line :: after) := by
  induction before with
  | nil => rw [List.nil_append, editLines, if_pos hline, List.nil_append]
  | cons l before ih =>
    rw [List.forall_mem_cons] at hbefore
    rw [List.cons_append, editLines, if_neg hbefore.1, ih hbefore.2, Option.map_some,
      List.cons_append]

/-! ## Reading whole texts -/

/-- A line that a scanner takes. -/
def Fits (line : String) : Prop := byteLength line.toList < maxScanTokenSize

/-- What the backend reads for a key from some lines: the last of them counts. -/
def reads (lines : List String) (key : String) : Option String :=
  (GoMap.ofList (lines.filterMap Worlds.propertyOf)).lookup key

theorem reads_append (ls ls' : List String) (key : String) :
    reads (ls ++ ls') key = (reads ls' key).or (reads ls key) := by
  simp only [reads, GoMap.lookup_ofList, List.filterMap_append, List.filter_append,
    List.getLast?_append]
  cases ((ls'.filterMap Worlds.propertyOf).filter (·.1 = key)).getLast? <;> rfl

theorem reads_singleton (line key : String) :
    reads [line] key = ((Worlds.propertyOf line).filter (·.1 = key)).map (·.2) := by
  rw [reads, GoMap.lookup_ofList]
  cases h : Worlds.propertyOf line with
  | none => simp [h]
  | some e =>
    by_cases hk : e.1 = key
    · subst hk
      simp [h]
    · simp [h, hk]

/-- A text is read without an error if all its lines fit, and then line by line. -/
theorem scanFrom_splitChars (s : List Char) :
    ((scanFrom [] s).2 = false ↔ ∀ l ∈ splitChars '\n' s, byteLength l < maxScanTokenSize) ∧
    ((scanFrom [] s).2 = false →
      ((scanFrom [] s).1.map String.ofList).filterMap Worlds.propertyOf =
        ((splitChars '\n' s).map String.ofList).filterMap Worlds.propertyOf) := by
  induction hn : s.length using Nat.strong_induction_on generalizing s with
  | h n ih =>
    have hdrop : ∀ l, Worlds.propertyOf (String.ofList (dropCR l)) =
        Worlds.propertyOf (String.ofList l) := by
      intro l
      have hline := propertyOf_dropCR (String.ofList l)
      rwa [String.toList_ofList] at hline
    obtain ⟨l, hl, ⟨rfl, hsplit⟩ | ⟨rest, rfl, hsplit⟩⟩ := exists_splitChars '\n' s
    · rw [hsplit, scanFrom_last hl, List.nil_append, scanFrom]
      by_cases hempty : s = []
      · subst hempty
        refine ⟨iff_of_true rfl fun l hl => ?_, fun _ => rfl⟩
        rw [List.mem_singleton.1 hl]
        decide
      · rw [if_neg hempty]
        by_cases hlong : maxScanTokenSize ≤ byteLength s
        · simp [hlong]
        · rw [if_neg hlong]
          refine ⟨by simp [Nat.not_le.1 hlong], fun _ => ?_⟩
          simp only [List.map_cons, List.map_nil, List.filterMap_cons, hdrop]
    · have hlength : rest.length < n := by
        rw [← hn, List.length_append, List.length_cons]
        omega
      obtain ⟨hfit, hread⟩ := ih rest.length hlength rest rfl
      rw [hsplit, scanFrom_line hl, List.nil_append]
      by_cases hlong : maxScanTokenSize ≤ byteLength l
      · rw [if_pos hlong]
        refine ⟨iff_of_false (fun h => by cases h) fun h => ?_, fun h => by cases h⟩
        exact absurd (h l List.mem_cons_self) (Nat.not_lt.2 hlong)
      · rw [if_neg hlong]
        refine ⟨?_, fun h => ?_⟩
        · rw [List.forall_mem_cons, ← hfit]
          exact (and_iff_right (Nat.not_le.1 hlong)).symm
        · simp only [List.map_cons, List.filterMap_cons, hdrop, hread h]

/-- The backend reads this map from a text, all of it. -/
def Gives (text : String) (m : String → Option String) : Prop :=
  (parseProperties text).2 = none ∧ ∀ key, (parseProperties text).1.lookup key = m key

theorem gives_iff (text : String) (m : String → Option String) :
    Gives text m ↔
      (∀ l ∈ split text '\n', Fits l) ∧ ∀ key, reads (split text '\n') key = m key := by
  obtain ⟨hfit, hread⟩ := scanFrom_splitChars text.toList
  have herror : (parseProperties text).2 = none ↔ (scanFrom [] text.toList).2 = false := by
    simp only [parseProperties, scanProperties]
    cases (scanFrom [] text.toList).2 <;> simp
  have hfits : (∀ l ∈ split text '\n', Fits l) ↔ (scanFrom [] text.toList).2 = false := by
    rw [hfit, split]
    simp [Fits]
  rw [Gives, herror, hfits]
  refine and_congr_right fun hno => ?_
  have hmap : ∀ key, (parseProperties text).1.lookup key = reads (split text '\n') key := by
    intro key
    rw [reads, split, ← hread hno]
    rfl
  simp only [hmap]

/-! ## An edit and a write -/

section

variable {key value line : String}

/-- The backend's key of the line that is written. -/
def writtenKey (key line : String) : Option String :=
  keyOf (String.ofList (line.toList.takeWhile isJsSpace) ++ key)

theorem propertyOf_editedLine (hline : lineKey line = some key) (value : String) :
    Worlds.propertyOf (editedLine key value line) =
      (writtenKey key line).map fun k => (k, trimSpace value) := by
  have hfront : '=' ∉ (String.ofList (line.toList.takeWhile isJsSpace) ++ key).toList := by
    rw [String.toList_append, String.toList_ofList, List.mem_append, not_or]
    refine ⟨fun hmem => ?_, fun hmem => (mem_of_lineKey hline _ hmem).2 rfl⟩
    exact absurd (List.mem_takeWhile_imp hmem) (by decide)
  rw [editedLine, String.append_assoc, propertyOf_front hfront, writtenKey]

theorem reads_editedLine (hline : lineKey line = some key) (value k : String) :
    reads [editedLine key value line] k =
      if writtenKey key line = some k then some (trimSpace value) else none := by
  rw [reads_singleton, propertyOf_editedLine hline]
  cases writtenKey key line with
  | none => simp
  | some k' =>
    by_cases hk : k' = k
    · simp [hk]
    · simp [hk]

/-- An edited line is still one line. -/
theorem not_mem_editedLine (hline : lineKey line = some key)
    (hvalue : Worlds.hasLineBreak value = false) (hbreak : '\n' ∉ line.toList) :
    '\n' ∉ (editedLine key value line).toList := by
  intro hmem
  rw [editedLine, String.toList_append, String.toList_append, String.toList_append,
    String.toList_ofList] at hmem
  simp only [List.mem_append] at hmem
  obtain ((hmem | hmem) | hmem) | hmem := hmem
  · exact hbreak ((List.takeWhile_prefix _).subset hmem)
  · exact hbreak (mem_of_lineKey hline _ hmem).1
  · revert hmem
    decide
  · exact (notMem_of_hasLineBreak hvalue).2 hmem

/-- The edit of a text in which the key has a line. -/
theorem split_applyPropertyEdit {content : String} {before after : List String}
    (hsplit : split content '\n' = before ++ line :: after)
    (hbefore : ∀ l ∈ before, lineKey l ≠ some key) (hline : lineKey line = some key)
    (hvalue : Worlds.hasLineBreak value = false) :
    split (applyPropertyEdit content key value) '\n' =
      before ++ editedLine key value line :: after := by
  have hlines : ∀ l ∈ before ++ line :: after, '\n' ∉ l.toList := by
    intro l hl
    exact not_mem_of_mem_split (hsplit ▸ hl)
  rw [List.forall_mem_append, List.forall_mem_cons] at hlines
  obtain ⟨hb, hl, ha⟩ := hlines
  have hedit := editLines_append value hbefore hline after
  rw [applyPropertyEdit, hsplit, hedit]
  apply split_intercalate (by simp)
  rw [List.forall_mem_append, List.forall_mem_cons]
  exact ⟨hb, not_mem_editedLine hline hvalue hl, ha⟩

end

/-! ## Agreement -/

/-- The form's edit and the backend's write both set the key in what the backend reads, and leave
every other key as it was. -/
def FormAgrees (path tmp content key value : String) : Prop :=
  ∃ old, Gives content old ∧
    Gives (applyPropertyEdit content key value)
      (Function.update old key (some (trimSpace value))) ∧
    ∃ text,
      writeProperty {} path tmp key value ⟨some content, none⟩ = (.ok (), ⟨some text, none⟩) ∧
        Gives text (Function.update old key (some (trimSpace value)))

/-- What the backend reads of the other lines leaves it to the first line of the key to say what the
key is, and nothing else. -/
structure Settles (key value : String) (before : List String) (line : String)
    (after : List String) : Prop where
  sets : match reads after key with
    | some later => later = trimSpace value
    | none => writtenKey key line = some key ∨ reads before key = some (trimSpace value)
  keeps : ∀ k ≠ key, reads after k = none → reads (before ++ [line]) k =
    if writtenKey key line = some k then some (trimSpace value) else reads before k

/-- The lines fit into the scanner's buffer, the edited one too, and the key can be written. -/
structure Writable (key value : String) (before : List String) (line : String)
    (after : List String) : Prop where
  lines : ∀ l ∈ before ++ line :: after, Fits l
  edited : Fits (editedLine key value line)
  plain : '\r' ∉ key.toList

section

variable {key value line : String} {before after : List String}

theorem reads_split (l k : String) : reads (before ++ l :: after) k =
    ((reads after k).or (reads [l] k)).or (reads before k) := by
  rw [reads_append, ← List.singleton_append, reads_append]

/-- The edited lines are read as the old ones with the key set exactly where they settle it. -/
theorem settles_iff (hline : lineKey line = some key) : Settles key value before line after ↔
    ∀ k, reads (before ++ editedLine key value line :: after) k =
      Function.update (reads (before ++ line :: after)) key (some (trimSpace value)) k := by
  have hkey : reads (before ++ editedLine key value line :: after) key = some (trimSpace value) ↔
      match reads after key with
      | some later => later = trimSpace value
      | none => writtenKey key line = some key ∨ reads before key = some (trimSpace value) := by
    rw [reads_split, reads_editedLine hline]
    cases reads after key with
    | some later => simp
    | none =>
      by_cases hwritten : writtenKey key line = some key
      · simp [hwritten]
      · simp [hwritten]
  have hothers : ∀ k, reads (before ++ editedLine key value line :: after) k =
      reads (before ++ line :: after) k ↔
        (reads after k = none → reads (before ++ [line]) k =
          if writtenKey key line = some k then some (trimSpace value) else reads before k) := by
    intro k
    rw [reads_split, reads_split, reads_append, reads_editedLine hline]
    cases reads after k with
    | some later => simp
    | none =>
      by_cases hwritten : writtenKey key line = some k
      · simp [hwritten, eq_comm]
      · simp [hwritten, eq_comm]
  constructor
  · rintro ⟨hk, hks⟩ k
    by_cases hkk : k = key
    · subst hkk
      rw [Function.update_self]
      exact hkey.2 hk
    · rw [Function.update_of_ne hkk]
      exact (hothers k).2 (hks k hkk)
  · intro h
    refine ⟨hkey.1 ?_, fun k hk => (hothers k).1 ?_⟩
    · rw [h, Function.update_self]
    · rw [h, Function.update_of_ne hk]

theorem exists_of_reads {lines : List String} {k v : String} (h : reads lines k = some v) :
    ∃ l ∈ lines, Worlds.propertyOf l = some (k, v) := by
  rw [reads, GoMap.lookup_ofList] at h
  obtain ⟨⟨k', v'⟩, hlast, hv⟩ := Option.map_eq_some_iff.1 h
  obtain ⟨hmem, hk⟩ := List.mem_filter.1 (List.mem_of_getLast? hlast)
  obtain ⟨l, hl, hprop⟩ := List.mem_filterMap.1 hmem
  obtain rfl : k' = k := of_decide_eq_true hk
  obtain rfl : v' = v := hv
  exact ⟨l, hl, hprop⟩

/-- A key that is settled is one the backend can write. -/
theorem isKey_of_settles (hline : lineKey line = some key)
    (hbreak : Worlds.hasLineBreak key = false) (h : Settles key value before line after) :
    IsKey key := by
  have hset := (settles_iff hline).1 h key
  rw [Function.update_self] at hset
  obtain ⟨l, -, hl⟩ := exists_of_reads hset
  exact isKey_of_propertyOf hl hbreak

theorem fits_written (h : Fits (editedLine key value line)) :
    byteLength (key ++ "=" ++ value).toList < maxScanTokenSize := by
  have hlist : (editedLine key value line).toList =
      line.toList.takeWhile isJsSpace ++ (key ++ "=" ++ value).toList := by
    simp [editedLine]
  rw [Fits, hlist, byteLength_append] at h
  omega

end

section

variable {path tmp content key value : String} {old : String → Option String}

/-- The backend's write of a key it can read sets it, and nothing else. -/
theorem gives_writeProperty (hkey : IsKey key) (hvalue : Worlds.hasLineBreak value = false)
    (hfit : byteLength (key ++ "=" ++ value).toList < maxScanTokenSize) (h : Gives content old) :
    ∃ text,
      writeProperty {} path tmp key value ⟨some content, none⟩ = (.ok (), ⟨some text, none⟩) ∧
        Gives text (Function.update old key (some (trimSpace value))) := by
  have hscan := scanProperties_written hkey.line hvalue (f := ⟨some content, none⟩) hfit
  refine ⟨joinLines (Worlds.setProperty key value (linesOf (some content))), ?_, ?_⟩
  · exact writeProperty_eq (f := ⟨some content, none⟩) hkey.line hvalue h.1
  rw [Gives, parseProperties, hscan]
  refine ⟨rfl, fun k => ?_⟩
  have hmap : ∀ lines : List String,
      (lines.map trimCR).filterMap Worlds.propertyOf = lines.filterMap Worlds.propertyOf := by
    intro lines
    rw [List.filterMap_map]
    apply List.filterMap_congr
    intro l _
    rw [Function.comp_apply, trimCR, propertyOf_dropCR]
  rw [hmap, lookup_setProperty hkey]
  by_cases hk : k = key
  · rw [if_pos hk, hk, Function.update_self]
  · rw [if_neg hk, Function.update_of_ne hk, ← h.2 k]
    rfl

/-- A write that went through was of a key without a line break. -/
theorem hasLineBreak_of_writeProperty {f f' : AtomicFile}
    (h : writeProperty {} path tmp key value f = (.ok (), f')) :
    Worlds.hasLineBreak key = false := by
  rw [writeProperty] at h
  split at h
  · cases h
  · next hbreak =>
    rw [Bool.or_eq_true, not_or] at hbreak
    exact eq_false_of_ne_true hbreak.1

/-- The edit of the first line of a key, and the write of the key. -/
theorem formAgrees_iff_of_firstLine {before after : List String} {line : String}
    (hsplit : split content '\n' = before ++ line :: after)
    (hbefore : ∀ l ∈ before, lineKey l ≠ some key) (hline : lineKey line = some key)
    (hvalue : Worlds.hasLineBreak value = false) : FormAgrees path tmp content key value ↔
      Writable key value before line after ∧ Settles key value before line after := by
  have hedit := split_applyPropertyEdit hsplit hbefore hline hvalue
  constructor
  · rintro ⟨old, hold, hform, text, hwrite, -⟩
    rw [gives_iff, hsplit] at hold
    rw [gives_iff, hedit] at hform
    have hreads : old = reads (before ++ line :: after) := funext fun k => (hold.2 k).symm
    rw [hreads] at hform
    refine ⟨⟨hold.1, ?_, ?_⟩, (settles_iff hline).2 hform.2⟩
    · exact hform.1 _ (List.mem_append_right _ List.mem_cons_self)
    · exact (notMem_of_hasLineBreak (hasLineBreak_of_writeProperty hwrite)).1
  · rintro ⟨hwritable, hsettles⟩
    have hbreak : Worlds.hasLineBreak key = false := by
      have hlinebreak : '\n' ∉ line.toList := by
        have hmem : line ∈ split content '\n' := by
          rw [hsplit]
          exact List.mem_append_right _ List.mem_cons_self
        exact not_mem_of_mem_split hmem
      rw [Worlds.hasLineBreak, List.any_eq_false]
      intro c hc hbreak
      rcases (by simpa using hbreak) with rfl | rfl
      · exact hwritable.plain hc
      · exact hlinebreak (mem_of_lineKey hline _ hc).1
    have hold : Gives content (reads (before ++ line :: after)) := by
      rw [gives_iff, hsplit]
      exact ⟨hwritable.lines, fun _ => rfl⟩
    refine ⟨_, hold, ?_, ?_⟩
    · rw [gives_iff, hedit]
      refine ⟨?_, (settles_iff hline).1 hsettles⟩
      have hlines := hwritable.lines
      rw [List.forall_mem_append, List.forall_mem_cons] at hlines ⊢
      exact ⟨hlines.1, hwritable.edited, hlines.2.2⟩
    · apply gives_writeProperty _ hvalue (fits_written hwritable.edited) hold
      exact isKey_of_settles hline hbreak hsettles

/-- The form and the backend agree on an edit exactly where the backend reads all of the text and of
the edited line, the key has no `\r` in it, and the other lines leave the key to the first line of
it. -/
theorem formAgrees_iff (hshown : key ∈ shownKeys content)
    (hvalue : Worlds.hasLineBreak value = false) :
    ∃ before line after, split content '\n' = before ++ line :: after ∧
      (∀ l ∈ before, lineKey l ≠ some key) ∧ lineKey line = some key ∧
      (FormAgrees path tmp content key value ↔
        Writable key value before line after ∧ Settles key value before line after) := by
  obtain ⟨before, line, after, hsplit, hbefore, hline⟩ := exists_firstLine (exists_of_shown hshown)
  refine ⟨before, line, after, hsplit, hbefore, hline, ?_⟩
  exact formAgrees_iff_of_firstLine hsplit hbefore hline hvalue

end

/-- An indented key with the line ends of another system, and a comment of each kind. -/
theorem formAgrees_iff_indented :
    let content := "#c\r\n!d=e\r\n  motd =A\r\nport=1\r\n"
    ∃ before line after, split content '\n' = before ++ line :: after ∧
      (∀ l ∈ before, lineKey l ≠ some "motd") ∧ lineKey line = some "motd" ∧
      (FormAgrees "server.properties" "tmp" content "motd" " B" ↔
        Writable "motd" " B" before line after ∧ Settles "motd" " B" before line after) :=
  formAgrees_iff (by decide +kernel) (by decide)

/-- The first of two lines is edited, and the second one is read. -/
theorem not_formAgrees_repeated :
    let content := "motd=A\nmotd=B\n"
    "motd" ∈ shownKeys content ∧ Worlds.hasLineBreak "C" = false ∧
      applyPropertyEdit content "motd" "C" = "motd=C\nmotd=B\n" ∧
      (parseProperties "motd=C\nmotd=B\n").1.lookup "motd" = some "B" ∧
      ¬ FormAgrees "server.properties" "tmp" content "motd" "C" := by
  intro content
  refine ⟨by decide +kernel, by decide, by decide +kernel, by decide +kernel, fun h => ?_⟩
  have hsplit : split content '\n' = [] ++ "motd=A" :: ["motd=B", ""] := by decide +kernel
  have hkey : lineKey "motd=A" = some "motd" := by decide +kernel
  have hsettles := ((formAgrees_iff_of_firstLine hsplit nofun hkey (by decide)).1 h).2.sets
  have hlater : reads ["motd=B", ""] "motd" = some "B" := by decide +kernel
  rw [hlater] at hsettles
  revert hsettles
  decide +kernel

end Konnekt.ConfigEditor
