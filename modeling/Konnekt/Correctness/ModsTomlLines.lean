import Mathlib
import Konnekt.Correctness.PropertyWrites
import Konnekt.Mods.ModsToml

/-!
# The lines of a `mods.toml`

A document is scanned line by line, up to one that is too long. What is left of a line
without the spaces around it begins with two brackets if it begins an array of tables, and
it is taken apart at its first `=` into a key without quotes and what stands behind it.
-/

namespace Konnekt.ModsToml

open Go Server

/-! ## The characters of a line -/

theorem isText_of_blank {c : Char} (h : c = ' ' ∨ c = '\t') : isText c = true := by
  rcases h with rfl | rfl
  all_goals rfl

theorem isSpace_of_blank {c : Char} (h : c = ' ' ∨ c = '\t') : isSpace c = true := by
  rcases h with rfl | rfl
  all_goals decide

theorem toNat_of_isBare {c : Char} (h : isBare c = true) :
    (48 ≤ c.toNat ∧ c.toNat ≤ 57) ∨ (65 ≤ c.toNat ∧ c.toNat ≤ 90) ∨
      (97 ≤ c.toNat ∧ c.toNat ≤ 122) ∨ c.toNat = 95 ∨ c.toNat = 45 := by
  simp only [isBare, Char.isAlphanum, Char.isAlpha, Char.isUpper, Char.isLower, Char.isDigit,
    Bool.or_eq_true, Bool.and_eq_true, decide_eq_true_eq, ge_iff_le, UInt32.le_iff_toNat_le] at h
  rcases h with (((h | h) | h) | h) | h
  · exact .inr (.inl h)
  · exact .inr (.inr (.inl h))
  · exact .inl h
  · subst h
    decide
  · subst h
    decide

/-- A character at either end of a name. -/
def isEnd (c : Char) : Bool := isBare c || c = '"' || c = '\''

theorem of_isEnd {c : Char} (h : isEnd c = true) :
    isText c = true ∧ isSpace c = false ∧ c ≠ '[' ∧ (c = '=' → False) := by
  have hnat : (33 ≤ c.toNat ∧ c.toNat ≤ 57) ∨ (65 ≤ c.toNat ∧ c.toNat ≤ 90) ∨
      (95 ≤ c.toNat ∧ c.toNat ≤ 122) := by
    simp only [isEnd, Bool.or_eq_true, decide_eq_true_eq] at h
    rcases h with (h | rfl) | rfl
    · have := toNat_of_isBare h
      omega
    · decide
    · decide
  refine ⟨?_, ?_, ?_, ?_⟩
  · simp only [isText, Bool.or_eq_true, Bool.and_eq_true, decide_eq_true_eq]
    omega
  · simp only [isSpace, Bool.or_eq_false_iff, Bool.and_eq_false_iff, decide_eq_false_iff_not,
      beq_eq_false_iff_ne]
    omega
  · rintro rfl
    revert hnat
    decide
  · rintro rfl
    revert hnat
    decide

theorem hexDigitVal_of_mem {digits : List Char} {n : Nat} (h : hexVal digits = some n) :
    ∀ c ∈ digits, (hexDigitVal c).isSome = true := by
  have hfold : ∀ (digits : List Char) (m n : Nat),
      digits.foldlM (fun n c => (hexDigitVal c).map (16 * n + ·)) m = some n →
        ∀ c ∈ digits, (hexDigitVal c).isSome = true := by
    intro digits
    induction digits with
    | nil => exact fun m n _ c hc => absurd hc List.not_mem_nil
    | cons d digits ih =>
      intro m n hm
      rw [List.foldlM_cons] at hm
      obtain ⟨k, hk, hm⟩ := Option.bind_eq_some_iff.1 hm
      obtain ⟨v, hv, -⟩ := Option.map_eq_some_iff.1 hk
      rw [List.forall_mem_cons]
      exact ⟨by rw [hv]; rfl, ih k n hm⟩
  exact hfold digits 0 n h

theorem isText_of_hexVal {digits : List Char} {n : Nat} (h : hexVal digits = some n) :
    ∀ c ∈ digits, isText c = true := by
  intro c hc
  have hdigit := hexDigitVal_of_mem h c hc
  unfold hexDigitVal at hdigit
  have hnat : (48 ≤ c.toNat ∧ c.toNat ≤ 57) ∨ (97 ≤ c.toNat ∧ c.toNat ≤ 102) ∨
      (65 ≤ c.toNat ∧ c.toNat ≤ 70) := by
    split at hdigit
    · next h => exact .inl h
    · split at hdigit
      · next h => exact .inr (.inl h)
      · split at hdigit
        · next h => exact .inr (.inr h)
        · cases hdigit
  simp only [isText, Bool.or_eq_true, Bool.and_eq_true, decide_eq_true_eq]
  omega

theorem Escape.text (e : Escape) : ∀ c ∈ e.chars, isText c = true := by
  cases e with
  | codePoint p =>
    rw [Escape.chars, List.forall_mem_cons]
    refine ⟨?_, isText_of_hexVal p.number⟩
    split
    · rfl
    · rfl
  | _ => simp [Escape.chars, isText]

theorem Piece.text (p : Piece) : ∀ c ∈ p.chars, isText c = true := by
  cases p with
  | plain c h =>
    intro d hd
    rw [List.mem_singleton.1 hd]
    exact h.1
  | escape e =>
    rw [Piece.chars, List.forall_mem_cons]
    exact ⟨rfl, e.text⟩

theorem Str.text (s : Str) : ∀ c ∈ s.chars, isText c = true := by
  cases s with
  | basic pieces =>
    rw [Str.chars, List.forall_mem_cons, List.forall_mem_append]
    refine ⟨rfl, fun c hc => ?_, by simp [isText]⟩
    obtain ⟨p, -, hp⟩ := List.mem_flatMap.1 hc
    exact p.text c hp
  | literal body h =>
    rw [Str.chars, List.forall_mem_cons, List.forall_mem_append]
    exact ⟨rfl, fun c hc => (h c hc).1, by simp [isText]⟩

theorem KeyPart.text (p : KeyPart) : ∀ c ∈ p.chars, isText c = true := by
  cases p with
  | bare name h => exact fun c hc => (of_isEnd (by simp [isEnd, h.2 c hc])).1
  | quoted s => exact s.text

theorem Blank.text (b : Blank) : ∀ c ∈ b.chars, isText c = true :=
  fun c hc => isText_of_blank (b.blank c hc)

theorem Blank.space (b : Blank) : ∀ c ∈ b.chars, isSpace c = true :=
  fun c hc => isSpace_of_blank (b.blank c hc)

theorem Key.text (k : Key) : ∀ c ∈ k.chars, isText c = true := by
  rw [Key.chars, List.forall_mem_append]
  refine ⟨k.head.text, fun c hc => ?_⟩
  obtain ⟨⟨before, after, part⟩, -, hmem⟩ := List.mem_flatMap.1 hc
  have hpart : ∀ c ∈ before.chars ++ '.' :: (after.chars ++ part.chars), isText c = true := by
    rw [List.forall_mem_append, List.forall_mem_cons, List.forall_mem_append]
    exact ⟨before.text, rfl, after.text, part.text⟩
  exact hpart c hmem

theorem Header.text (h : Header) : ∀ c ∈ h.chars, isText c = true := by
  rw [Header.chars, List.forall_mem_append, List.forall_mem_append]
  exact ⟨⟨h.before.text, h.key.text⟩, h.after.text⟩

/-- A line is one line. -/
theorem Line.text (l : Line) : ∀ c ∈ l.chars, isText c = true := by
  have hcontent : ∀ c ∈ l.content.chars, isText c = true := by
    cases l.content with
    | nothing => exact fun c hc => absurd hc List.not_mem_nil
    | table h =>
      rw [Content.chars, List.forall_mem_cons, List.forall_mem_append]
      exact ⟨rfl, h.text, by simp [isText]⟩
    | tables h =>
      rw [Content.chars, List.forall_mem_cons, List.forall_mem_cons, List.forall_mem_append]
      exact ⟨rfl, rfl, h.text, by simp [isText]⟩
    | entry e =>
      rw [Content.chars, List.forall_mem_append, List.forall_mem_append, List.forall_mem_cons,
        List.forall_mem_append]
      exact ⟨⟨e.key.text, e.before.text⟩, rfl, e.after.text, e.value.text⟩
  have hrest : ∀ c ∈ l.rest, isText c = true := by
    rw [Line.rest, List.forall_mem_append]
    refine ⟨l.space.text, ?_⟩
    cases l.comment with
    | none => exact fun c hc => absurd hc List.not_mem_nil
    | some c =>
      rw [List.forall_mem_cons]
      exact ⟨rfl, c.text⟩
  rw [Line.chars, List.forall_mem_append, List.forall_mem_append]
  exact ⟨l.indent.text, hcontent, hrest⟩

/-! ## The scanner's lines -/

theorem Line.not_break (l : Line) : '\n' ∉ l.chars ∧ '\r' ∉ l.chars :=
  ⟨fun h => absurd (l.text _ h) (by decide), fun h => absurd (l.text _ h) (by decide)⟩

theorem dropCR_of_not_mem {l : List Char} (h : '\r' ∉ l) : dropCR l = l := by
  rw [dropCR, if_neg fun hlast => h (List.mem_of_getLast? hlast)]

/-- What the code makes of its lines does not depend on an empty one at the end. -/
theorem scanMods_append_empty (inMods : Bool) (m : ModFields) (lines : List String) :
    scanMods inMods m (lines ++ [""]) = scanMods inMods m lines := by
  induction lines generalizing inMods m with
  | nil =>
    have hempty : trimSpace "" = "" := by decide
    cases inMods <;>
      simp [scanMods, hempty, ModFields.read, splitTomlKV, show cutAt '=' "" = none by decide]
  | cons line lines ih =>
    rw [List.cons_append, scanMods, scanMods]
    split
    · exact ih _ _
    · split
      · rfl
      · split
        · exact ih _ _
        · exact ih _ _

theorem scanFrom_document (lines : List (Line × Bool)) (last : Line) :
    let scanned := (((lines ++ [(last, false)]).takeWhile fits).map (·.1)).map Line.chars
    let text := (lines.flatMap fun (l, carriageReturn) =>
      l.chars ++ if carriageReturn then ['\r', '\n'] else ['\n']) ++ last.chars
    (scanFrom [] text).1 = scanned ∨ (scanFrom [] text).1 ++ [[]] = scanned := by
  induction lines with
  | nil =>
    dsimp only
    rw [List.flatMap_nil, List.nil_append, List.nil_append, scanFrom_last last.not_break.1,
      List.nil_append, scanFrom, dropCR_of_not_mem last.not_break.2]
    by_cases hempty : last.chars = []
    · refine .inr ?_
      rw [if_pos hempty, List.takeWhile_cons_of_pos (by simp [fits, hempty, byteLength]; decide)]
      simp [hempty]
    · refine .inl ?_
      rw [if_neg hempty]
      by_cases hlong : maxScanTokenSize ≤ byteLength last.chars
      · rw [if_pos hlong, List.takeWhile_cons_of_neg (by simpa [fits] using hlong)]
        rfl
      · rw [if_neg hlong, List.takeWhile_cons_of_pos (by simpa [fits] using hlong)]
        rfl
  | cons l lines ih =>
    obtain ⟨l, carriageReturn⟩ := l
    dsimp only at ih ⊢
    have hline : ∃ ending, '\n' ∉ l.chars ++ ending ∧ dropCR (l.chars ++ ending) = l.chars ∧
        byteLength (l.chars ++ ending) =
          byteLength l.chars + (if carriageReturn = true then 1 else 0) ∧
        (if carriageReturn = true then ['\r', '\n'] else ['\n']) = ending ++ ['\n'] := by
      cases carriageReturn with
      | false =>
        refine ⟨[], ?_, ?_, by simp, rfl⟩
        · rw [List.append_nil]
          exact l.not_break.1
        · rw [List.append_nil, dropCR_of_not_mem l.not_break.2]
      | true =>
        refine ⟨['\r'], ?_, ?_, ?_, rfl⟩
        · simp [l.not_break.1]
        · rw [dropCR, List.getLast?_concat, if_pos rfl, List.dropLast_concat]
        · rw [byteLength_append]
          rfl
    obtain ⟨ending, hbreak, hdrop, hlength, hending⟩ := hline
    rw [List.flatMap_cons, hending, ← List.append_assoc, List.append_assoc, List.append_assoc,
      List.singleton_append, scanFrom_line hbreak, List.nil_append, hlength]
    by_cases hlong : maxScanTokenSize ≤
        byteLength l.chars + (if carriageReturn = true then 1 else 0)
    · refine .inl ?_
      rw [if_pos hlong, List.cons_append,
        List.takeWhile_cons_of_neg (by simpa [fits] using hlong)]
      rfl
    · rw [if_neg hlong, List.cons_append,
        List.takeWhile_cons_of_pos (by simpa [fits] using hlong), hdrop, List.map_cons,
        List.map_cons, List.cons_append]
      exact ih.imp (congrArg _) (congrArg _)

/-! ## Trimmed lines -/

/-- A name begins and ends as it should. -/
theorem KeyPart.ends (part : KeyPart) : (∃ c t, part.chars = c :: t ∧ isEnd c = true) ∧
    ∃ t c, part.chars = t ++ [c] ∧ isEnd c = true := by
  cases part with
  | bare name h =>
    obtain ⟨hne, hbare⟩ := h
    constructor
    · obtain ⟨c, t, rfl⟩ := List.exists_cons_of_ne_nil hne
      exact ⟨c, t, rfl, by simp [isEnd, hbare c List.mem_cons_self]⟩
    · refine ⟨name.dropLast, name.getLast hne, (List.dropLast_concat_getLast hne).symm, ?_⟩
      simp [isEnd, hbare _ (List.getLast_mem hne)]
  | quoted s =>
    cases s with
    | basic pieces => exact ⟨⟨'"', _, rfl, rfl⟩, ⟨'"' :: pieces.flatMap Piece.chars, '"', rfl, rfl⟩⟩
    | literal body h => exact ⟨⟨'\'', _, rfl, rfl⟩, ⟨'\'' :: body, '\'', rfl, rfl⟩⟩

theorem Key.ends (k : Key) : (∃ c t, k.chars = c :: t ∧ isEnd c = true) ∧
    ∃ t c, k.chars = t ++ [c] ∧ isEnd c = true := by
  constructor
  · obtain ⟨c, t, hc, hend⟩ := k.head.ends.1
    exact ⟨c, _, by rw [Key.chars, hc, List.cons_append], hend⟩
  · rcases List.eq_nil_or_concat k.tail with htail | ⟨init, ⟨before, after, part⟩, htail⟩
    · obtain ⟨t, c, hc, hend⟩ := k.head.ends.2
      refine ⟨t, c, ?_, hend⟩
      rw [Key.chars, htail, List.flatMap_nil, List.append_nil, hc]
    · obtain ⟨t, c, hc, hend⟩ := part.ends.2
      refine ⟨k.head.chars ++ (init.flatMap (fun e =>
        e.1.chars ++ '.' :: (e.2.1.chars ++ e.2.2.chars)) ++
          (before.chars ++ '.' :: (after.chars ++ t))), c, ?_, hend⟩
      rw [Key.chars, htail, List.concat_eq_append, List.flatMap_append, List.flatMap_singleton]
      simp [hc]

theorem Str.ends (s : Str) : (∃ c t, s.chars = c :: t ∧ isEnd c = true) ∧
    ∃ t c, s.chars = t ++ [c] ∧ isEnd c = true := (KeyPart.quoted s).ends

theorem Content.ends {content : Content} (h : content ≠ .nothing) :
    (∃ c t, content.chars = c :: t ∧ isSpace c = false) ∧
      ∃ t c, content.chars = t ++ [c] ∧ isSpace c = false := by
  cases content with
  | nothing => exact absurd rfl h
  | table header => exact ⟨⟨'[', _, rfl, by decide⟩, ⟨'[' :: header.chars, ']', rfl, by decide⟩⟩
  | tables header =>
    refine ⟨⟨'[', _, rfl, by decide⟩, ⟨'[' :: '[' :: (header.chars ++ [']']), ']', ?_, by decide⟩⟩
    simp [Content.chars]
  | entry e =>
    obtain ⟨⟨c, t, hc, hend⟩, -⟩ := e.key.ends
    obtain ⟨-, t', c', hc', hend'⟩ := e.value.ends
    refine ⟨⟨c, _, by rw [Content.chars, hc, List.cons_append, List.cons_append],
      (of_isEnd hend).2.1⟩, ⟨e.key.chars ++ e.before.chars ++ '=' :: (e.after.chars ++ t'), c', ?_,
      (of_isEnd hend').2.1⟩⟩
    rw [Content.chars, hc']
    simp

/-- What is left of a line with content. -/
theorem Line.trim_chars {l : Line} (h : l.content ≠ .nothing) :
    trim l.chars = l.content.chars ++ (l.rest.reverse.dropWhile isSpace).reverse := by
  obtain ⟨hfirst, hlast⟩ := Content.ends h
  rw [Line.chars, trim_eq_trimWith, trimWith_append_left l.indent.space,
    trimWith_append_of_ends hfirst hlast]

/-- What is left of a line without content is a comment or nothing. -/
theorem Line.trim_chars_nothing {l : Line} (h : l.content = .nothing) :
    trim l.chars = [] ∨ ∃ t, trim l.chars = '#' :: t := by
  rw [Line.chars, h, Content.chars, List.nil_append, Line.rest, trim_eq_trimWith,
    trimWith_append_left l.indent.space, trimWith_append_left l.space.space]
  cases l.comment with
  | none => exact .inl rfl
  | some c =>
    exact .inr ⟨_, @trimWith_cut isSpace '#' (by decide) [] c.body⟩

/-- Only a line that begins an array of tables begins with two brackets. -/
theorem Line.brackets_iff (l : Line) : ['[', '['] <+: trim l.chars ↔ l.isTables = true := by
  cases hcontent : l.content with
  | nothing =>
    refine iff_of_false ?_ (by simp [Line.isTables, hcontent])
    rcases l.trim_chars_nothing hcontent with h | ⟨t, h⟩
    · simp [h]
    · simp [h, List.cons_prefix_cons]
  | table h =>
    refine iff_of_false ?_ (by simp [Line.isTables, hcontent])
    rw [l.trim_chars (by simp [hcontent]), hcontent, Content.chars, List.cons_append,
      List.cons_prefix_cons]
    rintro ⟨-, hsecond⟩
    obtain ⟨⟨c, t, hc, hend⟩, -⟩ := h.key.ends
    rw [Header.chars, hc] at hsecond
    cases hbefore : h.before.chars with
    | nil =>
      simp only [hbefore, List.nil_append, List.cons_append, List.cons_prefix_cons] at hsecond
      exact (of_isEnd hend).2.2.1 hsecond.1.symm
    | cons d u =>
      simp only [hbefore, List.cons_append, List.cons_prefix_cons] at hsecond
      have hblank := h.before.blank d (hbefore ▸ List.mem_cons_self)
      rw [← hsecond.1] at hblank
      revert hblank
      decide
  | tables h =>
    refine iff_of_true ?_ (by simp [Line.isTables, hcontent])
    rw [l.trim_chars (by simp [hcontent]), hcontent, Content.chars]
    simp
  | entry e =>
    refine iff_of_false ?_ (by simp [Line.isTables, hcontent])
    obtain ⟨⟨c, t, hc, hend⟩, -⟩ := e.key.ends
    rw [l.trim_chars (by simp [hcontent]), hcontent, Content.chars, hc]
    simp only [List.cons_append, List.cons_prefix_cons]
    exact fun h => (of_isEnd hend).2.2.1 h.1.symm

/-! ## The key of a line -/

/-- A name that is compared with what stands in front of an `=`. -/
def IsName (key : String) : Prop := key ≠ "" ∧ ∀ c ∈ key.toList, isBare c = true

/-- A line with another character in front of its `=` is not of this key. -/
theorem splitTomlKV_ne {key : String} (hkey : IsName key) {s : List Char}
    (h : '=' ∈ s → ∃ c ∈ s.takeWhile (· ≠ '='), isSpace c = false ∧ isBare c = false) :
    (splitTomlKV (String.ofList s)).1 ≠ key := by
  cases hcut : cutAt '=' (String.ofList s) with
  | none =>
    rw [splitTomlKV, hcut]
    exact Ne.symm hkey.1
  | some cut =>
    obtain ⟨front, rest⟩ := cut
    obtain ⟨hs, hfront⟩ := cutAt_eq_some hcut
    have hlist : s = front.toList ++ '=' :: rest.toList := by
      have hlist := congrArg String.toList hs
      simpa using hlist
    have htake : s.takeWhile (· ≠ '=') = front.toList := by
      have hpos : ∀ c ∈ front.toList, decide (c ≠ '=') = true := by
        intro c hc
        refine decide_eq_true ?_
        rintro rfl
        exact hfront hc
      rw [hlist, List.takeWhile_append_of_pos hpos, List.takeWhile_cons_of_neg (by simp),
        List.append_nil]
    obtain ⟨c, hc, hspace, hbare⟩ := h (by simp [hlist])
    rw [htake] at hc
    rw [splitTomlKV, hcut]
    rintro rfl
    have hmem : c ∈ (trimSpace front).toList := by
      obtain ⟨lead, trail, hsplit, hlead, htrail⟩ := exists_trim front.toList
      rw [trimSpace, String.toList_ofList]
      rw [hsplit, List.mem_append, List.mem_append] at hc
      rcases hc with hc | hc | hc
      · rw [hlead c hc] at hspace
        cases hspace
      · exact hc
      · rw [htrail c hc] at hspace
        cases hspace
    rw [hkey.2 c hmem] at hbare
    cases hbare

theorem KeyPart.quote_before {part : KeyPart} (h : '=' ∈ part.chars) (rest : List Char) :
    ∃ c ∈ (part.chars ++ rest).takeWhile (· ≠ '='), isSpace c = false ∧ isBare c = false := by
  cases part with
  | bare name hname =>
    exact absurd rfl (of_isEnd (by simp [isEnd, hname.2 _ h])).2.2.2
  | quoted s =>
    have hquote : ∃ c t, s.chars = c :: t ∧ (c = '"' ∨ c = '\'') := by
      cases s with
      | basic pieces => exact ⟨'"', _, rfl, .inl rfl⟩
      | literal body h => exact ⟨'\'', _, rfl, .inr rfl⟩
    obtain ⟨c, t, hc, hcases⟩ := hquote
    refine ⟨c, ?_, ?_⟩
    · rw [KeyPart.chars, hc, List.cons_append, List.takeWhile_cons_of_pos]
      · exact List.mem_cons_self
      · rcases hcases with rfl | rfl
        · decide
        · decide
    · rcases hcases with rfl | rfl
      · decide
      · decide

theorem takeWhile_append_of_not_mem {s : List Char} (h : '=' ∉ s) (rest : List Char) :
    (s ++ rest).takeWhile (· ≠ '=') = s ++ rest.takeWhile (· ≠ '=') := by
  apply List.takeWhile_append_of_pos
  intro c hc
  refine decide_eq_true ?_
  rintro rfl
  exact h hc

/-- An `=` in a key stands behind a quote. -/
theorem Key.quote_before {k : Key} (h : '=' ∈ k.chars) (rest : List Char) :
    ∃ c ∈ (k.chars ++ rest).takeWhile (· ≠ '='), isSpace c = false ∧ isBare c = false := by
  have htail : ∀ tail : List (Blank × Blank × KeyPart),
      '=' ∈ (tail.flatMap fun e => e.1.chars ++ '.' :: (e.2.1.chars ++ e.2.2.chars)) →
      ∃ c ∈ ((tail.flatMap fun e => e.1.chars ++ '.' :: (e.2.1.chars ++ e.2.2.chars)) ++
        rest).takeWhile (· ≠ '='),
          isSpace c = false ∧ isBare c = false := by
    intro tail
    induction tail with
    | nil => exact fun h => absurd h List.not_mem_nil
    | cons entry tail ih =>
      obtain ⟨before, after, part⟩ := entry
      intro hmem
      have hlead : '=' ∉ before.chars ++ '.' :: after.chars := by
        intro hlead
        rw [List.mem_append, List.mem_cons] at hlead
        rcases hlead with h | h | h
        · exact absurd (before.space _ h) (by decide)
        · revert h
          decide
        · exact absurd (after.space _ h) (by decide)
      have hsplit : ∀ rest, before.chars ++ '.' :: (after.chars ++ part.chars) ++ rest =
          (before.chars ++ '.' :: after.chars) ++ (part.chars ++ rest) := by
        simp
      simp only [List.flatMap_cons] at hmem ⊢
      rw [List.append_assoc, hsplit, takeWhile_append_of_not_mem hlead]
      by_cases hpart : '=' ∈ part.chars
      · obtain ⟨c, hc, hquote⟩ := KeyPart.quote_before hpart
          ((tail.flatMap fun e => e.1.chars ++ '.' :: (e.2.1.chars ++ e.2.2.chars)) ++ rest)
        exact ⟨c, List.mem_append_right _ hc, hquote⟩
      · have hlater : '=' ∈ tail.flatMap fun e =>
            e.1.chars ++ '.' :: (e.2.1.chars ++ e.2.2.chars) := by
          rw [hsplit, List.mem_append] at hmem
          exact (List.mem_append.1 (hmem.resolve_left hlead)).resolve_left hpart
        obtain ⟨c, hc, hquote⟩ := ih hlater
        rw [takeWhile_append_of_not_mem hpart]
        exact ⟨c, List.mem_append_right _ (List.mem_append_right _ hc), hquote⟩
  rw [Key.chars, List.mem_append] at h
  rw [Key.chars, List.append_assoc]
  by_cases hhead : '=' ∈ k.head.chars
  · exact KeyPart.quote_before hhead _
  · rw [takeWhile_append_of_not_mem hhead]
    obtain ⟨c, hc, hquote⟩ := htail k.tail (h.resolve_left hhead)
    exact ⟨c, List.mem_append_right _ hc, hquote⟩

theorem trim_append_trailing (s t : List Char) :
    trim (s ++ (t.reverse.dropWhile isSpace).reverse) = trim (s ++ t) := by
  have ht : t = (t.reverse.dropWhile isSpace).reverse ++ (t.reverse.takeWhile isSpace).reverse := by
    rw [← List.reverse_append, List.takeWhile_append_dropWhile, List.reverse_reverse]
  conv_rhs => rw [ht, ← List.append_assoc]
  rw [trim_eq_trimWith, trim_eq_trimWith,
    trimWith_append_right fun c hc => List.mem_takeWhile_imp (List.mem_reverse.1 hc)]

/-- An entry with no `=` in its key is taken apart as it is written. -/
theorem Line.split_entry {l : Line} {e : Entry} (h : l.content = .entry e)
    (hkey : '=' ∉ e.key.chars) :
    splitTomlKV (trimSpace (String.ofList l.chars)) = (String.ofList e.key.chars, l.shown) := by
  have hfront : '=' ∉ e.key.chars ++ e.before.chars := by
    rw [List.mem_append, not_or]
    exact ⟨hkey, fun hmem => absurd (e.before.space _ hmem) (by decide)⟩
  have hcut : cutAt '=' (trimSpace (String.ofList l.chars)) =
      some (String.ofList (e.key.chars ++ e.before.chars), String.ofList
        (e.after.chars ++ e.value.chars ++ (l.rest.reverse.dropWhile isSpace).reverse)) := by
    have hlist : trimSpace (String.ofList l.chars) =
        String.ofList (e.key.chars ++ e.before.chars) ++ (String.singleton '=' ++ String.ofList
          (e.after.chars ++ e.value.chars ++ (l.rest.reverse.dropWhile isSpace).reverse)) := by
      rw [← String.toList_inj, trimSpace, String.toList_ofList, String.toList_ofList,
        l.trim_chars (by simp [h]), h, Content.chars]
      simp
    rw [hlist, cutAt_append (by rwa [String.toList_ofList])]
  have htrim : trim (e.key.chars ++ e.before.chars) = e.key.chars := by
    obtain ⟨⟨c, t, hc, hend⟩, t', c', hc', hend'⟩ := e.key.ends
    rw [trim_eq_trimWith, trimWith_append_right e.before.space,
      trimWith_of_ends ⟨c, t, hc, (of_isEnd hend).2.1⟩ ⟨t', c', hc', (of_isEnd hend').2.1⟩]
  rw [splitTomlKV, hcut]
  simp only [trimSpace, String.toList_ofList, htrim, trim_append_trailing, Line.shown, h]

/-- The code reads a key of a line where the line has an entry with this key. -/
theorem Line.split_iff {key : String} (hkey : IsName key) (l : Line) :
    (splitTomlKV (trimSpace (String.ofList l.chars))).1 = key ↔ l.writes key = true := by
  have hother : (∃ c t, trim l.chars = c :: t ∧ isBare c = false ∧ isSpace c = false ∧ c ≠ '=') →
      (splitTomlKV (trimSpace (String.ofList l.chars))).1 ≠ key := by
    rintro ⟨c, t, hc, hbare, hspace, hne⟩
    rw [trimSpace, String.toList_ofList]
    apply splitTomlKV_ne hkey
    intro _
    refine ⟨c, ?_, hspace, hbare⟩
    rw [hc, List.takeWhile_cons_of_pos (by simpa using hne)]
    exact List.mem_cons_self
  cases hcontent : l.content with
  | nothing =>
    refine iff_of_false ?_ (by simp [Line.writes, hcontent])
    rcases l.trim_chars_nothing hcontent with h | ⟨t, h⟩
    · rw [trimSpace, String.toList_ofList, h]
      exact splitTomlKV_ne hkey fun h => absurd h List.not_mem_nil
    · exact hother ⟨'#', t, h, by decide, by decide, by decide⟩
  | table header =>
    have htrim := l.trim_chars (by simp [hcontent])
    rw [hcontent, Content.chars, List.cons_append] at htrim
    exact iff_of_false (hother ⟨'[', _, htrim, by decide, by decide, by decide⟩)
      (by simp [Line.writes, hcontent])
  | tables header =>
    have htrim := l.trim_chars (by simp [hcontent])
    rw [hcontent, Content.chars, List.cons_append] at htrim
    exact iff_of_false (hother ⟨'[', _, htrim, by decide, by decide, by decide⟩)
      (by simp [Line.writes, hcontent])
  | entry e =>
    by_cases hequals : '=' ∈ e.key.chars
    · refine iff_of_false ?_ ?_
      · rw [trimSpace, String.toList_ofList, l.trim_chars (by simp [hcontent]), hcontent,
          Content.chars, List.append_assoc, List.append_assoc]
        exact splitTomlKV_ne hkey fun _ => Key.quote_before hequals _
      · simp only [Line.writes, hcontent, decide_eq_true_eq]
        intro heq
        have hbare := hkey.2 '=' (heq ▸ hequals)
        revert hbare
        decide
    · rw [Line.split_entry hcontent hequals]
      simp only [Line.writes, hcontent, decide_eq_true_eq]
      rw [← String.toList_inj, String.toList_ofList]

theorem Line.shown_of_writes {key : String} (hkey : IsName key) {l : Line}
    (h : l.writes key = true) : (splitTomlKV (trimSpace (String.ofList l.chars))).2 = l.shown := by
  cases hcontent : l.content with
  | entry e =>
    simp only [Line.writes, hcontent, decide_eq_true_eq] at h
    rw [Line.split_entry hcontent]
    intro hmem
    have hbare := hkey.2 '=' (h ▸ hmem)
    revert hbare
    decide
  | _ => simp [Line.writes, hcontent] at h

end Konnekt.ModsToml
