import Konnekt.Go.Number
import Mathlib.Data.List.Infix
import Mathlib.Data.List.TakeWhile
import Mathlib.Data.Nat.Digits.Defs

/-!
# Text of the source language's standard library

Trimming, splitting, quoting and the two directions of number conversion, as the
`strings` and `strconv` packages document them. Strings are sequences of
characters; the byte cursor of the source only ever inspects ASCII.
-/

namespace Go

/-! ## Spaces, trimming and splitting -/

/-- `unicode.IsSpace`. -/
def isSpace (c : Char) : Bool :=
  let n := c.toNat
  (9 ≤ n && n ≤ 13) || n == 0x20 || n == 0x85 || n == 0xA0 || n == 0x1680 ||
    (0x2000 ≤ n && n ≤ 0x200A) || n == 0x2028 || n == 0x2029 || n == 0x202F ||
    n == 0x205F || n == 0x3000

/-- Leading and trailing spaces of a character list removed. -/
def trim (s : List Char) : List Char :=
  ((s.dropWhile isSpace).reverse.dropWhile isSpace).reverse

/-- What trimming removes is space on both sides. -/
theorem exists_trim (s : List Char) : ∃ lead trail,
    s = lead ++ (trim s ++ trail) ∧ (∀ c ∈ lead, isSpace c = true) ∧
      ∀ c ∈ trail, isSpace c = true := by
  refine ⟨s.takeWhile isSpace, ((s.dropWhile isSpace).reverse.takeWhile isSpace).reverse,
    ?_, fun c hc => List.mem_takeWhile_imp hc, fun c hc => ?_⟩
  · rw [trim, ← List.reverse_append, List.takeWhile_append_dropWhile, List.reverse_reverse,
      List.takeWhile_append_dropWhile]
  · exact List.mem_takeWhile_imp (List.mem_reverse.1 hc)

section

variable {p : Char → Bool}

/-- Characters of a kind taken off both ends. -/
def trimWith (p : Char → Bool) (s : List Char) : List Char :=
  ((s.dropWhile p).reverse.dropWhile p).reverse

theorem trim_eq_trimWith (s : List Char) : trim s = trimWith isSpace s := rfl

theorem trimWith_append_left {lead : List Char} (h : ∀ c ∈ lead, p c = true) (s : List Char) :
    trimWith p (lead ++ s) = trimWith p s := by
  rw [trimWith, List.dropWhile_append_of_pos h, trimWith]

theorem dropWhile_append_ne_nil {s t : List Char} (h : s.dropWhile p ≠ []) :
    (s ++ t).dropWhile p = s.dropWhile p ++ t := by
  rw [List.dropWhile_append, if_neg (by simpa using h)]

theorem trimWith_append_right {trail : List Char} (h : ∀ c ∈ trail, p c = true) (s : List Char) :
    trimWith p (s ++ trail) = trimWith p s := by
  have htrail : ∀ c ∈ trail.reverse, p c = true := fun c hc => h c (List.mem_reverse.1 hc)
  by_cases hs : s.dropWhile p = []
  · have hall := List.dropWhile_eq_nil_iff.1 hs
    rw [trimWith_append_left hall, trimWith, trimWith, hs, List.dropWhile_eq_nil_iff.2 h]
  · rw [trimWith, dropWhile_append_ne_nil hs, List.reverse_append,
      List.dropWhile_append_of_pos htrail, trimWith]

/-- What is before and behind a character that stays is trimmed on its own side. -/
theorem trimWith_cut {c : Char} (hc : p c = false) (s t : List Char) :
    trimWith p (s ++ c :: t) =
      s.dropWhile p ++ c :: (t.reverse.dropWhile p).reverse := by
  have hstart : (s ++ c :: t).dropWhile p = s.dropWhile p ++ c :: t := by
    by_cases hs : s.dropWhile p = []
    · rw [List.dropWhile_append_of_pos (List.dropWhile_eq_nil_iff.1 hs), hs,
        List.dropWhile_cons_of_neg (by simp [hc]), List.nil_append]
    · exact dropWhile_append_ne_nil hs
  have hend : (s.dropWhile p ++ c :: t).reverse.dropWhile p =
      t.reverse.dropWhile p ++ c :: (s.dropWhile p).reverse := by
    rw [List.reverse_append, List.reverse_cons, List.append_assoc, List.singleton_append]
    by_cases ht : t.reverse.dropWhile p = []
    · rw [List.dropWhile_append_of_pos (List.dropWhile_eq_nil_iff.1 ht), ht,
        List.dropWhile_cons_of_neg (by simp [hc]), List.nil_append]
    · exact dropWhile_append_ne_nil ht
  rw [trimWith, hstart, hend, List.reverse_append, List.reverse_cons, List.reverse_reverse,
    List.append_assoc, List.singleton_append]

theorem trimWith_dropWhile (s : List Char) : trimWith p (s.dropWhile p) = trimWith p s := by
  conv_rhs => rw [← List.takeWhile_append_dropWhile (p := p) (l := s)]
  rw [trimWith_append_left fun c hc => List.mem_takeWhile_imp hc]

theorem trimWith_rdropWhile (s : List Char) :
    trimWith p (s.reverse.dropWhile p).reverse = trimWith p s := by
  have hs : s = (s.reverse.dropWhile p).reverse ++ (s.reverse.takeWhile p).reverse := by
    rw [← List.reverse_append, List.takeWhile_append_dropWhile, List.reverse_reverse]
  conv_rhs => rw [hs]
  rw [trimWith_append_right fun c hc => List.mem_takeWhile_imp (List.mem_reverse.1 hc)]

/-- What begins and ends with characters that stay is trimmed behind it only. -/
theorem trimWith_trimWith (s : List Char) : trimWith p (trimWith p s) = trimWith p s := by
  have hback := trimWith_rdropWhile (p := p) (s.dropWhile p)
  rwa [trimWith_dropWhile] at hback

theorem trimWith_subset (p : Char → Bool) (s : List Char) : trimWith p s ⊆ s := by
  intro c hc
  rw [trimWith, List.mem_reverse] at hc
  have hmem := List.mem_reverse.1 ((List.dropWhile_suffix p).subset hc)
  exact (List.dropWhile_suffix p).subset hmem

theorem trimWith_append_of_ends {s : List Char} (hfirst : ∃ c t, s = c :: t ∧ p c = false)
    (hlast : ∃ t c, s = t ++ [c] ∧ p c = false) (rest : List Char) :
    trimWith p (s ++ rest) = s ++ (rest.reverse.dropWhile p).reverse := by
  obtain ⟨t, c, rfl, hc⟩ := hlast
  have hstart : t.dropWhile p = t := by
    cases t with
    | nil => rfl
    | cons d t =>
      obtain ⟨d', t', heq, hd⟩ := hfirst
      obtain rfl : d = d' := by simpa using congrArg List.head? heq
      exact List.dropWhile_cons_of_neg (by simp [hd])
  rw [List.append_assoc, List.singleton_append, trimWith_cut hc, hstart, List.append_assoc,
    List.singleton_append]

theorem trimWith_of_ends {s : List Char} (hfirst : ∃ c t, s = c :: t ∧ p c = false)
    (hlast : ∃ t c, s = t ++ [c] ∧ p c = false) : trimWith p s = s := by
  have h := trimWith_append_of_ends hfirst hlast []
  rwa [List.append_nil, List.reverse_nil, List.dropWhile_nil, List.reverse_nil,
    List.append_nil] at h

theorem singleton_prefix_trimWith {c : Char} (s : List Char) :
    [c] <+: trimWith p s ↔ [c] <+: s.dropWhile p := by
  rw [← trimWith_dropWhile]
  cases hs : s.dropWhile p with
  | nil => rfl
  | cons d t =>
    have hd : p d = false := by
      have hnot := List.head_dropWhile_not p (l := s) (by simp [hs])
      simpa [hs] using hnot
    have hcut := trimWith_cut hd [] t
    rw [List.nil_append, List.dropWhile_nil, List.nil_append] at hcut
    simp [hcut, List.cons_prefix_cons]

/-- A mark in front of a line is one in front of what stands before its first `=`. -/
theorem singleton_prefix_trimWith_cut {c : Char} (hc : c ≠ '=') (hp : p '=' = false)
    (s t : List Char) : [c] <+: trimWith p (s ++ '=' :: t) ↔ [c] <+: trimWith p s := by
  rw [trimWith_cut hp, singleton_prefix_trimWith]
  cases s.dropWhile p with
  | nil => simp [List.cons_prefix_cons, hc]
  | cons d u => simp [List.cons_prefix_cons]

end

/-- `strings.TrimSpace`. -/
def trimSpace (s : String) : String := String.ofList (trim s.toList)

theorem trimSpace_trimSpace (s : String) : trimSpace (trimSpace s) = trimSpace s := by
  rw [trimSpace, trimSpace, String.toList_ofList, trim_eq_trimWith, trim_eq_trimWith,
    trimWith_trimWith]

/-- The parts of a list between the separators `c`; never empty. -/
def splitChars (c : Char) : List Char → List (List Char)
  | [] => [[]]
  | d :: s =>
    if d = c then [] :: splitChars c s
    else match splitChars c s with
      | [] => [[d]]
      | p :: ps => (d :: p) :: ps

/-- `strings.Split` on a one-character separator. -/
def split (s : String) (c : Char) : List String :=
  (splitChars c s.toList).map String.ofList

theorem splitChars_of_not_mem {c : Char} {l : List Char} (h : c ∉ l) : splitChars c l = [l] := by
  induction l with
  | nil => rfl
  | cons d l ih =>
    rw [List.mem_cons, not_or] at h
    rw [splitChars, if_neg (Ne.symm h.1), ih h.2]

theorem splitChars_append {c : Char} {l : List Char} (h : c ∉ l) (s : List Char) :
    splitChars c (l ++ c :: s) = l :: splitChars c s := by
  induction l with
  | nil => rw [List.nil_append, splitChars, if_pos rfl]
  | cons d l ih =>
    rw [List.mem_cons, not_or] at h
    rw [List.cons_append, splitChars, if_neg (Ne.symm h.1), ih h.2]

/-- The text up to the first separator is the first part. -/
theorem exists_splitChars (c : Char) (s : List Char) : ∃ l, c ∉ l ∧
    (s = l ∧ splitChars c s = [l] ∨
      ∃ rest, s = l ++ c :: rest ∧ splitChars c s = l :: splitChars c rest) := by
  by_cases hc : c ∈ s
  · obtain ⟨l, rest, rfl, hl⟩ := List.eq_append_cons_of_mem hc
    exact ⟨l, hl, .inr ⟨rest, rfl, splitChars_append hl rest⟩⟩
  · exact ⟨s, hc, .inl ⟨rfl, splitChars_of_not_mem hc⟩⟩

theorem splitChars_ne_nil (c : Char) (s : List Char) : splitChars c s ≠ [] := by
  obtain ⟨l, -, ⟨-, heq⟩ | ⟨rest, -, heq⟩⟩ := exists_splitChars c s
  · simp [heq]
  · simp [heq]

/-- No part has the separator in it. -/
theorem not_mem_of_mem_splitChars {c : Char} {s p : List Char} (h : p ∈ splitChars c s) :
    c ∉ p := by
  induction hn : s.length using Nat.strong_induction_on generalizing s with
  | h n ih =>
    obtain ⟨l, hl, ⟨-, heq⟩ | ⟨rest, rfl, heq⟩⟩ := exists_splitChars c s
    · rw [heq, List.mem_singleton] at h
      rwa [h]
    · rw [heq, List.mem_cons] at h
      cases h with
      | inl h => rwa [h]
      | inr h =>
        apply ih rest.length _ h rfl
        rw [← hn, List.length_append, List.length_cons]
        omega

theorem subset_of_mem_splitChars {c : Char} {s part : List Char} (h : part ∈ splitChars c s) :
    part ⊆ s := by
  induction s generalizing part with
  | nil =>
    rw [splitChars, List.mem_singleton] at h
    exact h ▸ List.Subset.refl _
  | cons d s ih =>
    unfold splitChars at h
    split_ifs at h with hd
    · cases List.mem_cons.1 h with
      | inl h => exact h ▸ List.nil_subset _
      | inr h => exact fun x hx => List.mem_cons_of_mem d (ih h hx)
    · split at h
      · rw [List.mem_singleton] at h
        rw [h]
        simp
      · rename_i p ps heq
        rw [heq] at ih
        cases List.mem_cons.1 h with
        | inl h =>
          rw [h]
          exact List.cons_subset_cons d (ih List.mem_cons_self)
        | inr h => exact fun x hx => List.mem_cons_of_mem d (ih (List.mem_cons_of_mem p h) hx)

theorem not_mem_of_mem_split {text l : String} (h : l ∈ split text '\n') : '\n' ∉ l.toList := by
  obtain ⟨cs, hcs, rfl⟩ := List.mem_map.1 h
  rw [String.toList_ofList]
  exact not_mem_of_mem_splitChars hcs

/-- Lines that are joined are the lines of the text. -/
theorem split_intercalate {lines : List String} (hne : lines ≠ [])
    (h : ∀ l ∈ lines, '\n' ∉ l.toList) : split ("\n".intercalate lines) '\n' = lines := by
  induction lines with
  | nil => exact absurd rfl hne
  | cons l lines ih =>
    rw [List.forall_mem_cons] at h
    by_cases hnil : lines = []
    · subst hnil
      rw [String.intercalate_singleton, split, splitChars_of_not_mem h.1]
      simp
    · have hjoin : ("\n".intercalate (l :: lines)).toList =
          l.toList ++ '\n' :: ("\n".intercalate lines).toList := by
        rw [String.intercalate_cons_of_ne_nil hnil]
        simp
      rw [split, hjoin, splitChars_append h.1, List.map_cons, String.ofList_toList]
      exact congrArg (l :: ·) (ih hnil h.2)

/-- The last part of a text is what it ends in. -/
theorem suffix_of_splitChars {c : Char} {s part : List Char} {parts : List (List Char)}
    (h : splitChars c s = parts ++ [part]) : part <:+ s := by
  induction parts generalizing s with
  | nil =>
    obtain ⟨l, -, ⟨rfl, heq⟩ | ⟨rest, rfl, heq⟩⟩ := exists_splitChars c s
    · rw [heq] at h
      cases h
      exact List.suffix_rfl
    · rw [heq, List.nil_append] at h
      exact absurd (List.cons.inj h).2 (splitChars_ne_nil c rest)
  | cons q parts ih =>
    obtain ⟨l, -, ⟨rfl, heq⟩ | ⟨rest, rfl, heq⟩⟩ := exists_splitChars c s
    · rw [heq] at h
      have hlen := congrArg List.length h
      simp at hlen
    · rw [heq, List.cons_append] at h
      exact ((ih (List.cons.inj h).2).trans (List.suffix_cons c rest)).trans
        (List.suffix_append l _)

/-- `strings.Fields`: the maximal runs of non-space characters. -/
def fieldsFrom : List Char → List Char → List (List Char)
  | run, [] => if run.isEmpty then [] else [run.reverse]
  | run, c :: s =>
    if isSpace c then
      if run.isEmpty then fieldsFrom [] s else run.reverse :: fieldsFrom [] s
    else fieldsFrom (c :: run) s

def fields (s : String) : List String := (fieldsFrom [] s.toList).map String.ofList

/-- Text that trims to nothing has no fields. -/
theorem fields_of_trimSpace {s : String} (h : trimSpace s = "") : fields s = [] := by
  obtain ⟨lead, trail, hs, hlead, htrail⟩ := exists_trim s.toList
  have hnil : trim s.toList = [] := by
    have hlist := congrArg String.toList h
    rwa [trimSpace, String.toList_ofList] at hlist
  have hspace : ∀ l : List Char, (∀ c ∈ l, isSpace c = true) → fieldsFrom [] l = [] := by
    intro l hl
    induction l with
    | nil => rfl
    | cons c l ih =>
      rw [fieldsFrom, if_pos (hl c List.mem_cons_self)]
      exact ih fun d hd => hl d (List.mem_cons_of_mem _ hd)
  rw [fields, hs, hnil, List.nil_append, hspace]
  · rfl
  · exact fun c hc => (List.mem_append.1 hc).elim (hlead c) (htrail c)

/-- The text before and after the first separator, if there is one. -/
def cutAt (c : Char) (s : String) : Option (String × String) :=
  let cs := s.toList
  let before := cs.takeWhile (· ≠ c)
  match cs.dropWhile (· ≠ c) with
  | [] => none
  | _ :: after => some (String.ofList before, String.ofList after)

/-- `strings.HasPrefix` and the cut that goes with it. -/
def cutPrefix (pre s : String) : Option String :=
  if pre.toList.isPrefixOf s.toList then some (String.ofList (s.toList.drop pre.length))
  else none

/-- `strings.TrimPrefix`. -/
def trimPrefix (s pre : String) : String := (cutPrefix pre s).getD s

theorem cutPrefix_append (pre s : String) : cutPrefix pre (pre ++ s) = some s := by
  have hprefix : pre.toList.isPrefixOf (pre ++ s).toList = true := by
    rw [List.isPrefixOf_iff_prefix, String.toList_append]
    exact List.prefix_append _ _
  rw [cutPrefix, if_pos hprefix, String.toList_append, ← String.length_toList, List.drop_left,
    String.ofList_toList]

theorem trimPrefix_append (pre s : String) : trimPrefix (pre ++ s) pre = s := by
  rw [trimPrefix, cutPrefix_append]
  rfl

theorem cutPrefix_eq_some {pre s rest : String} :
    cutPrefix pre s = some rest ↔ s = pre ++ rest := by
  constructor
  · intro h
    unfold cutPrefix at h
    split at h
    · next hpre =>
      rw [List.isPrefixOf_iff_prefix] at hpre
      obtain ⟨tail, htail⟩ := hpre
      cases h
      rw [← String.toList_inj, String.toList_append, String.toList_ofList, ← htail,
        ← String.length_toList, List.drop_left]
    · cases h
  · rintro rfl
    exact cutPrefix_append pre rest

theorem cutAt_eq_some {c : Char} {s before after : String} (h : cutAt c s = some (before, after)) :
    s = before ++ (String.singleton c ++ after) ∧ c ∉ before.toList := by
  have hsplit := List.takeWhile_append_dropWhile (p := (· ≠ c)) (l := s.toList)
  unfold cutAt at h
  dsimp only at h
  split at h
  · cases h
  · next d rest hdrop =>
    have hd : d = c := by
      have hnot := List.head_dropWhile_not (· ≠ c) (l := s.toList) (by rw [hdrop]; simp)
      simp only [hdrop, List.head_cons] at hnot
      simpa using hnot
    subst hd
    cases h
    rw [hdrop] at hsplit
    constructor
    · rw [← String.toList_inj, String.toList_append, String.toList_append, String.toList_ofList,
        String.toList_ofList, String.toList_singleton]
      exact hsplit.symm
    · rw [String.toList_ofList]
      intro hmem
      simpa using List.mem_takeWhile_imp hmem

theorem cutAt_append {c : Char} {before : String} (h : c ∉ before.toList) (after : String) :
    cutAt c (before ++ (String.singleton c ++ after)) = some (before, after) := by
  have hkeep : ∀ d ∈ before.toList, (decide (d ≠ c)) = true := by
    intro d hd
    rw [decide_eq_true_eq]
    rintro rfl
    exact h hd
  have htext : (before ++ (String.singleton c ++ after)).toList =
      before.toList ++ c :: after.toList := by
    simp
  rw [cutAt, htext, List.takeWhile_append_of_pos hkeep, List.dropWhile_append_of_pos hkeep]
  simp

theorem cutAt_of_not_mem {c : Char} {s : String} (h : c ∉ s.toList) : cutAt c s = none := by
  have hkeep : s.toList.dropWhile (· ≠ c) = [] := by
    rw [List.dropWhile_eq_nil_iff]
    intro d hd
    rw [decide_eq_true_eq]
    rintro rfl
    exact h hd
  rw [cutAt, hkeep]

/-- `strings.TrimSuffix`. -/
def trimSuffix (s suf : String) : String :=
  if suf.toList <:+ s.toList then String.ofList (s.toList.take (s.length - suf.length)) else s

theorem trimSuffix_append (s suf : String) : trimSuffix (s ++ suf) suf = s := by
  have hsuf : suf.toList <:+ (s ++ suf).toList := by
    rw [String.toList_append]
    exact List.suffix_append _ _
  have hlength : (s ++ suf).length - suf.length = s.toList.length := by
    rw [String.length_append, Nat.add_sub_cancel, String.length_toList]
  rw [trimSuffix, if_pos hsuf, hlength, String.toList_append, List.take_left, String.ofList_toList]

theorem trimSuffix_of_not {s suf : String} (h : ¬ suf.toList <:+ s.toList) :
    trimSuffix s suf = s :=
  if_neg h

/-- Trimming that changes the text takes the suffix off. -/
theorem trimSuffix_append_of_ne {s suf : String} (h : trimSuffix s suf ≠ s) :
    trimSuffix s suf ++ suf = s := by
  have hsuf : suf.toList <:+ s.toList := by
    by_contra hnot
    exact h (trimSuffix_of_not hnot)
  obtain ⟨cs, hcs⟩ := hsuf
  have hs : s = String.ofList cs ++ suf := by
    rw [← String.toList_inj, String.toList_append, String.toList_ofList, hcs]
  rw [hs, trimSuffix_append]

/-- What is left after trimming was there before. -/
theorem mem_of_mem_trimSuffix {s suf : String} {c : Char} (h : c ∈ (trimSuffix s suf).toList) :
    c ∈ s.toList := by
  unfold trimSuffix at h
  split at h
  · rw [String.toList_ofList] at h
    exact List.mem_of_mem_take h
  · exact h

/-! ## Quoting -/

def hexDigit (n : Nat) : Char :=
  if n < 10 then Char.ofNat (48 + n) else Char.ofNat (87 + n)

/-- One character inside `strconv.Quote`; characters past ASCII are printed as they are. -/
def quoteChar (c : Char) : List Char :=
  match c with
  | '"' => ['\\', '"']
  | '\\' => ['\\', '\\']
  | '\n' => ['\\', 'n']
  | '\r' => ['\\', 'r']
  | '\t' => ['\\', 't']
  | c =>
    let n := c.toNat
    if n = 7 then ['\\', 'a']
    else if n = 8 then ['\\', 'b']
    else if n = 11 then ['\\', 'v']
    else if n = 12 then ['\\', 'f']
    else if n < 32 ∨ n = 127 then ['\\', 'x', hexDigit (n / 16), hexDigit (n % 16)]
    else [c]

/-- `strconv.Quote`, the `%q` verb. -/
def quote (s : String) : String :=
  String.ofList ('"' :: s.toList.flatMap quoteChar ++ ['"'])

/-! ## Reading integers -/

def digitVal (c : Char) : Option Nat :=
  if '0' ≤ c ∧ c ≤ '9' then some (c.toNat - 48) else none

/-- The value of a nonempty run of decimal digits. -/
def decimalVal : List Char → Option Nat
  | [] => none
  | cs => cs.foldl (fun acc c => acc.bind fun n => (digitVal c).map (n * 10 + ·)) (some 0)

def numError (fn s why : String) : String :=
  "strconv." ++ fn ++ ": parsing " ++ quote s ++ ": " ++ why

/-- `strconv.ParseInt(s, 10, 64)`, under the name its errors carry. -/
def parseInt (fn s : String) : Except String Int :=
  let parsed := match s.toList with
    | '+' :: cs => (decimalVal cs).map Int.ofNat
    | '-' :: cs => (decimalVal cs).map fun n => -Int.ofNat n
    | cs => (decimalVal cs).map Int.ofNat
  match parsed with
  | none => .error (numError fn s "invalid syntax")
  | some n =>
    if minInt64 ≤ n ∧ n ≤ maxInt64 then .ok n
    else .error (numError fn s "value out of range")

/-- `strconv.Atoi`. -/
def atoi (s : String) : Option Int := (parseInt "Atoi" s).toOption

/-! ## Reading floating point numbers -/

def lower (c : Char) : Char := if 'A' ≤ c ∧ c ≤ 'Z' then Char.ofNat (c.toNat + 32) else c

/-- A digit of the mantissa's base. -/
def mantissaDigit (hex : Bool) (c : Char) : Option Nat :=
  match digitVal c with
  | some d => some d
  | none =>
    if hex && 'a' ≤ lower c && lower c ≤ 'f' then some ((lower c).toNat - 87) else none

/-- What the mantissa loop of `readFloat` has seen. -/
structure Mantissa where
  /-- The digits read as one integer. -/
  value : Nat := 0
  /-- How many of them stand after the point. -/
  frac : Nat := 0
  sawDot : Bool := false
  sawDigits : Bool := false

def scanMantissa (hex : Bool) : Mantissa → List Char → Mantissa × List Char
  | m, [] => (m, [])
  | m, c :: cs =>
    if c = '_' then scanMantissa hex m cs
    else if c = '.' then
      if m.sawDot then (m, c :: cs) else scanMantissa hex { m with sawDot := true } cs
    else match mantissaDigit hex c with
      | some d =>
        let base := if hex then 16 else 10
        scanMantissa hex { m with
          value := m.value * base + d
          frac := if m.sawDot then m.frac + 1 else m.frac
          sawDigits := true } cs
      | none => (m, c :: cs)

/-- The digits of an exponent; the source stops accumulating past four digits. -/
def scanExponent : Nat → List Char → Nat × List Char
  | e, [] => (e, [])
  | e, c :: cs =>
    if c = '_' then scanExponent e cs
    else match digitVal c with
      | some d => scanExponent (if e < 10000 then e * 10 + d else e) cs
      | none => (e, c :: cs)

/-- The optional exponent after a mantissa; `none` when it is malformed. -/
def readExponent (hex : Bool) (cs : List Char) : Option (Int × List Char) :=
  match cs with
  | c :: rest =>
    if lower c = (if hex then 'p' else 'e') then
      let (sign, digits) : Int × List Char := match rest with
        | '+' :: ds => (1, ds)
        | '-' :: ds => (-1, ds)
        | ds => (1, ds)
      match digits with
      | d :: _ =>
        if (digitVal d).isSome then
          let (e, after) := scanExponent 0 digits
          some (sign * e, after)
        else none
      | [] => none
    else if hex then none
    else some (0, cs)
  | [] => if hex then none else some (0, [])

/-- The number part of `underscoreOK`: an underscore stands between digits only. -/
def underscoresFrom (hex : Bool) : Char → List Char → Bool
  | saw, [] => saw != '_'
  | saw, c :: cs =>
    if (mantissaDigit hex c).isSome then underscoresFrom hex '0' cs
    else if c = '_' then saw == '0' && underscoresFrom hex '_' cs
    else saw != '_' && underscoresFrom hex '!' cs

def stripSign : List Char → Bool × List Char
  | '+' :: cs => (false, cs)
  | '-' :: cs => (true, cs)
  | cs => (false, cs)

/-- The base prefix of a hexadecimal number, which needs a character after it. -/
def stripHexPrefix : List Char → Bool × List Char
  | '0' :: x :: c :: cs => if lower x = 'x' then (true, c :: cs) else (false, '0' :: x :: c :: cs)
  | cs => (false, cs)

/-- `readFloat` over a whole text, as an exact rational. -/
def readFloat (s : List Char) : Option ℚ :=
  let (neg, body) := stripSign s
  let (hex, digits) := stripHexPrefix body
  let (m, rest) := scanMantissa hex {} digits
  if !m.sawDigits then none
  else match readExponent hex rest with
    | some (e, []) =>
      if digits.contains '_' && !underscoresFrom hex (if hex then '0' else '^') digits then none
      else
        let magnitude : ℚ :=
          if hex then m.value * (2 : ℚ) ^ (e - 4 * m.frac) else m.value * (10 : ℚ) ^ (e - m.frac)
        some (if neg then -magnitude else magnitude)
    | _ => none

/-- The special values, in any letter case; only the infinities take a sign. -/
def readSpecial (s : List Char) : Option Float64 :=
  let word := String.ofList ((stripSign s).2.map lower)
  if word = "inf" ∨ word = "infinity" then some (.inf (stripSign s).1)
  else if String.ofList (s.map lower) = "nan" then some .nan
  else none

/-- Half a unit past the largest finite value, where parsing reports a range error. -/
def float64Limit : ℚ := 2 ^ 1024 - 2 ^ 970

/-- `strconv.ParseFloat(s, 64)`. -/
def parseFloat (s : String) : Except String Float64 :=
  match readSpecial s.toList with
  | some f => .ok f
  | none => match readFloat s.toList with
    | none => .error (numError "ParseFloat" s "invalid syntax")
    | some q =>
      if |q| < float64Limit then .ok (.fin q)
      else .error (numError "ParseFloat" s "value out of range")

/-! ## Printing floating point numbers -/

/-- Rounding of a nonnegative rational to the nearest integer, ties to even. -/
def roundEven (q : ℚ) : Nat :=
  let n := q.num.natAbs / q.den
  let r := q.num.natAbs % q.den
  if 2 * r < q.den then n
  else if q.den < 2 * r then n + 1
  else if n % 2 = 0 then n else n + 1

/-- The exponent of the leading power of two of a positive rational. -/
def binaryExponent (q : ℚ) : Int :=
  let e : Int := (Nat.log2 q.num.natAbs : Int) - Nat.log2 q.den
  if (2 : ℚ) ^ e ≤ q then e else e - 1

/-- The nearest binary64 value of a positive rational. -/
def nearestFloat (q : ℚ) : ℚ :=
  let e := max (binaryExponent q - 52) (-1074)
  (roundEven (q / 2 ^ e) : ℚ) * 2 ^ e

/-- Decimal digits with the position of the point: `0.d₁d₂… × 10 ^ point`. -/
structure Decimal where
  digits : List Nat
  point : Int
  deriving DecidableEq, Repr

def Decimal.ofNat (n : Nat) (scale : Int) : Decimal :=
  let ds := (Nat.digits 10 n).reverse
  { digits := (ds.reverse.dropWhile (· = 0)).reverse, point := ds.length + scale }

/-- The place of the leading decimal digit of a positive rational. -/
def decimalPoint (q : ℚ) : Int :=
  let e : Int := ((Nat.digits 10 q.num.natAbs).length : Int) - (Nat.digits 10 q.den).length
  if (10 : ℚ) ^ e ≤ q then e + 1 else e

/-- A positive rational rounded to `n` significant digits: a coefficient and a scale. -/
def significant (q : ℚ) (n : Nat) : Nat × Int :=
  let scale := decimalPoint q - n
  (roundEven (q / 10 ^ scale), scale)

/-- The fewest digits that read back as the same binary64 value. -/
def shortestDecimal (q : ℚ) : Decimal :=
  let reads := fun n =>
    nearestFloat ((significant q n).1 * (10 : ℚ) ^ (significant q n).2) = nearestFloat q
  let n := ((List.range' 1 17).find? (fun n => decide (reads n))).getD 17
  Decimal.ofNat (significant q n).1 (significant q n).2

def digitChar (d : Nat) : Char := Char.ofNat (48 + d)

/-- The `%f` layout with as many decimals as there are digits. -/
def layoutF (d : Decimal) : List Char :=
  let whole := if 0 < d.point then
      (d.digits.take d.point.toNat).map digitChar ++
        List.replicate (d.point.toNat - d.digits.length) '0'
    else ['0']
  let decimals := List.replicate (-d.point).toNat '0' ++ (d.digits.drop d.point.toNat).map digitChar
  if d.point < d.digits.length then whole ++ '.' :: decimals else whole

/-- The `%e` layout, with an exponent of at least two digits. -/
def layoutE (d : Decimal) : List Char :=
  let mantissa := match d.digits with
    | [] => ['0']
    | [a] => [digitChar a]
    | a :: rest => digitChar a :: '.' :: rest.map digitChar
  let e := if d.digits.isEmpty then 0 else d.point - 1
  let exponent := (toString e.natAbs).toList
  mantissa ++ ['e', if e < 0 then '-' else '+'] ++
    (if exponent.length < 2 then '0' :: exponent else exponent)

/-- The digits of a finite value's magnitude; zero has none. -/
def decimalOf (q : ℚ) : Decimal := if q = 0 then ⟨[], 0⟩ else shortestDecimal |q|

/-- Whether the `%g` layout takes the exponent form for a finite value. -/
def usesExponent (q : ℚ) : Bool :=
  let e := (decimalOf q).point - 1
  decide (e < -4 ∨ 6 ≤ e)

def signed (q : ℚ) (cs : List Char) : String := String.ofList (if q < 0 then '-' :: cs else cs)

/-- `strconv.FormatFloat(f, 'f', -1, 64)`. -/
def formatF : Float64 → String
  | .fin q => signed q (layoutF (decimalOf q))
  | .inf neg => if neg then "-Inf" else "+Inf"
  | .nan => "NaN"

/-- The `%v` verb on a `float64`: the `%g` layout with the shortest digits. -/
def formatG : Float64 → String
  | .fin q => signed q (if usesExponent q then layoutE (decimalOf q) else layoutF (decimalOf q))
  | .inf neg => if neg then "-Inf" else "+Inf"
  | .nan => "NaN"

/-- Away from the exponent form the two layouts print the same text. -/
theorem formatG_eq_formatF {q : ℚ} (h : usesExponent q = false) :
    formatG (.fin q) = formatF (.fin q) := by
  simp only [formatG, formatF, h, Bool.false_eq_true, if_false]

end Go
