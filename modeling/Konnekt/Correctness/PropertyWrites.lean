import Konnekt.Server.PropertiesText

/-!
# Writing one property

What is written is read as the same lines, short of one `\r` at the end of each and as far
as each fits into the scanner's buffer. So a write changes the property it is for, and no
other line, exactly where no line it keeps ends in a `\r` and its own line fits.
-/

namespace Konnekt.Server

open Go

/-! ## Scanning what was joined -/

theorem scanFrom_line {l : List Char} (h : '\n' ∉ l) (seen s : List Char) :
    scanFrom seen (l ++ '\n' :: s) =
      if maxScanTokenSize ≤ byteLength (seen ++ l) then ([], true)
      else (dropCR (seen ++ l) :: (scanFrom [] s).1, (scanFrom [] s).2) := by
  induction l generalizing seen with
  | nil => rw [List.nil_append, scanFrom, if_pos rfl, List.append_nil]
  | cons c l ih =>
    rw [List.mem_cons, not_or] at h
    rw [List.cons_append, scanFrom, if_neg (Ne.symm h.1), ih h.2, List.append_assoc]
    rfl

theorem scanFrom_last {l : List Char} (h : '\n' ∉ l) (seen : List Char) :
    scanFrom seen l = scanFrom (seen ++ l) [] := by
  induction l generalizing seen with
  | nil => rw [List.append_nil]
  | cons c l ih =>
    rw [List.mem_cons, not_or] at h
    have hstep : scanFrom seen (c :: l) = scanFrom (seen ++ [c]) l := by
      rw [scanFrom, if_neg (Ne.symm h.1)]
    rw [hstep, ih h.2, List.append_assoc]
    rfl

/-- Lines with a break behind each. -/
def broken (ls : List (List Char)) : List Char := ls.flatMap (· ++ ['\n'])

theorem broken_cons (l : List Char) (ls : List (List Char)) :
    broken (l :: ls) = l ++ '\n' :: broken ls := by
  rw [broken, List.flatMap_cons, List.append_assoc]
  rfl

/-- Lines are read as they were written, short of a `\r`, if all of them fit. -/
theorem scanFrom_broken {ls : List (List Char)} (h : ∀ l ∈ ls, '\n' ∉ l)
    (hfit : ∀ l ∈ ls, byteLength l < maxScanTokenSize) :
    scanFrom [] (broken ls) = (ls.map dropCR, false) := by
  induction ls with
  | nil => rfl
  | cons l ls ih =>
    rw [List.forall_mem_cons] at h hfit
    rw [broken_cons, scanFrom_line h.1, List.nil_append, if_neg (Nat.not_le.2 hfit.1),
      ih h.2 hfit.2]
    rfl

theorem scanFrom_broken_of_long {ls : List (List Char)} (h : ∀ l ∈ ls, '\n' ∉ l)
    {long : List Char} (hlong : long ∈ ls) (hsize : maxScanTokenSize ≤ byteLength long) :
    (scanFrom [] (broken ls)).2 = true := by
  induction ls with
  | nil => cases hlong
  | cons l ls ih =>
    rw [List.forall_mem_cons] at h
    rw [broken_cons, scanFrom_line h.1, List.nil_append]
    by_cases hl : maxScanTokenSize ≤ byteLength l
    · rw [if_pos hl]
    · rw [if_neg hl]
      cases List.mem_cons.1 hlong with
      | inl heq => exact absurd (heq ▸ hsize) hl
      | inr hmem => exact ih h.2 hmem

theorem prefix_dropCR (l : List Char) : dropCR l <+: l := by
  rw [dropCR]
  split
  · exact List.dropLast_prefix l
  · exact List.prefix_rfl

theorem byteLength_append (l s : List Char) :
    byteLength (l ++ s) = byteLength l + byteLength s := by
  simp [byteLength]

theorem byteLength_dropCR (l : List Char) : byteLength (dropCR l) ≤ byteLength l := by
  obtain ⟨t, ht⟩ := prefix_dropCR l
  conv_rhs => rw [← ht]
  rw [byteLength_append]
  exact Nat.le_add_right _ _

/-- What a scanner gives fits its buffer and has no break in it. -/
theorem of_mem_scanFrom {seen s l : List Char} (hseen : '\n' ∉ seen)
    (h : l ∈ (scanFrom seen s).1) : '\n' ∉ l ∧ byteLength l < maxScanTokenSize := by
  have hline : ∀ l, '\n' ∉ l → ¬ maxScanTokenSize ≤ byteLength l →
      '\n' ∉ dropCR l ∧ byteLength (dropCR l) < maxScanTokenSize := by
    intro l hl hfit
    refine ⟨fun hmem => hl ((prefix_dropCR l).mem hmem), ?_⟩
    exact (byteLength_dropCR l).trans_lt (Nat.not_le.1 hfit)
  induction s generalizing seen with
  | nil =>
    rw [scanFrom] at h
    split_ifs at h with hnil hlong
    · cases h
    · cases h
    · rw [List.mem_singleton.1 h]
      exact hline seen hseen hlong
  | cons c s ih =>
    rw [scanFrom] at h
    split_ifs at h with hc hlong
    · cases h
    · cases List.mem_cons.1 h with
      | inl h =>
        rw [h]
        exact hline seen hseen hlong
      | inr h => exact ih (by simp) h
    · apply ih _ h
      simp [hseen, Ne.symm hc]

/-! ## Spaces at the ends -/

theorem trim_dropCR (l : List Char) : trim (dropCR l) = trim l := by
  rw [dropCR]
  split
  · next hlast =>
    obtain ⟨lead, rfl⟩ := List.getLast?_eq_some_iff.1 hlast
    have hspace : ∀ c ∈ ['\r'], isSpace c = true := by simp [isSpace]
    rw [List.dropLast_concat, trim_eq_trimWith, trim_eq_trimWith, trimWith_append_right hspace]
  · rfl

/-! ## Lines of a key -/

/-- The key of a line is this one. -/
def IsLineOf (key line : String) : Prop := (Worlds.propertyOf line).map (·.1) = some key

instance (key line : String) : Decidable (IsLineOf key line) :=
  inferInstanceAs (Decidable (_ = _))

/-- A key that can be written: it is on one line, has no `=` and no space around it, and does not
begin a comment. -/
structure IsKey (key : String) : Prop where
  line : Worlds.hasLineBreak key = false
  equals : '=' ∉ key.toList
  trimmed : trimSpace key = key
  plain : ¬ ['#'] <+: key.toList

/-- A value that can be written: it is on one line and has no space around it. -/
structure IsValue (value : String) : Prop where
  line : Worlds.hasLineBreak value = false
  trimmed : trimSpace value = value

/-- A line up to its first `=` gives the key, what is behind it the value. -/
theorem propertyOf_cut {front : String} (hfront : '=' ∉ front.toList) (value : String) :
    Worlds.propertyOf (front ++ ("=" ++ value)) =
      if ['#'] <+: (trimSpace front).toList then none
      else some (trimSpace front, trimSpace value) := by
  have hequals : isSpace '=' = false := by decide
  have hlist : (front ++ ("=" ++ value)).toList = front.toList ++ '=' :: value.toList := by simp
  have htrim : trimSpace (front ++ ("=" ++ value)) =
      String.ofList (front.toList.dropWhile isSpace) ++ ("=" ++
        String.ofList (value.toList.reverse.dropWhile isSpace).reverse) := by
    rw [← String.toList_inj, trimSpace, String.toList_ofList, hlist, trim_eq_trimWith,
      trimWith_cut hequals]
    simp
  have hcut : cutAt '=' (trimSpace (front ++ ("=" ++ value))) =
      some (String.ofList (front.toList.dropWhile isSpace),
        String.ofList (value.toList.reverse.dropWhile isSpace).reverse) := by
    rw [htrim]
    refine cutAt_append (c := '=') ?_ _
    rw [String.toList_ofList]
    exact fun hmem => hfront ((List.dropWhile_suffix _).subset hmem)
  have hne : trimSpace (front ++ ("=" ++ value)) ≠ "" := by
    intro hempty
    rw [hempty] at hcut
    cases hcut
  have hkey : trimSpace (String.ofList (front.toList.dropWhile isSpace)) = trimSpace front := by
    rw [trimSpace, String.toList_ofList, trim_eq_trimWith, trimWith_dropWhile, trimSpace,
      trim_eq_trimWith]
  have hvalue : trimSpace (String.ofList (value.toList.reverse.dropWhile isSpace).reverse) =
      trimSpace value := by
    rw [trimSpace, String.toList_ofList, trim_eq_trimWith, trimWith_rdropWhile, trimSpace,
      trim_eq_trimWith]
  have hhash : ['#'] <+: (trimSpace (front ++ ("=" ++ value))).toList ↔
      ['#'] <+: (trimSpace front).toList := by
    rw [trimSpace, String.toList_ofList, hlist, trimSpace, String.toList_ofList]
    exact singleton_prefix_trimWith_cut (by decide) hequals _ _
  simp only [Worlds.propertyOf, hne, hhash, false_or, hcut, Option.map_some, hkey, hvalue]

theorem propertyOf_of_not_mem {line : String} (h : '=' ∉ line.toList) :
    Worlds.propertyOf line = none := by
  have hcut : cutAt '=' (trimSpace line) = none := by
    apply cutAt_of_not_mem
    rw [trimSpace, String.toList_ofList]
    intro hmem
    obtain ⟨lead, trail, hsplit, -, -⟩ := exists_trim line.toList
    rw [hsplit] at h
    exact h (List.mem_append_right _ (List.mem_append_left _ hmem))
  simp [Worlds.propertyOf, hcut]

section

variable {key value : String}

/-- What is written is read as the key and the value. -/
theorem propertyOf_written (hkey : IsKey key) (value : String) :
    Worlds.propertyOf (key ++ "=" ++ value) = some (key, trimSpace value) := by
  rw [String.append_assoc, propertyOf_cut hkey.equals, hkey.trimmed, if_neg hkey.plain]

theorem isLineOf_written (hkey : IsKey key) (value : String) :
    IsLineOf key (key ++ "=" ++ value) := by
  rw [IsLineOf, propertyOf_written hkey value]
  rfl

theorem propertyOf_dropCR (line : String) :
    Worlds.propertyOf (String.ofList (dropCR line.toList)) = Worlds.propertyOf line := by
  have htrim : trimSpace (String.ofList (dropCR line.toList)) = trimSpace line := by
    rw [trimSpace, String.toList_ofList, trim_dropCR, trimSpace]
  simp only [Worlds.propertyOf, htrim]

/-! ## The lines that are written -/

theorem setProperty_eq (key value : String) (ls : List String) :
    Worlds.setProperty key value ls =
      if ls.any (IsLineOf key) then
        ls.map fun l => if IsLineOf key l then key ++ "=" ++ value else l
      else ls ++ [key ++ "=" ++ value] := by
  by_cases hany : ls.any (IsLineOf key) = true
  · rw [if_pos hany]
    exact if_pos hany
  · rw [if_neg hany]
    have hnone : ∀ l ∈ ls, ¬ IsLineOf key l := by
      intro l hl hline
      exact hany (List.any_eq_true.2 ⟨l, hl, decide_eq_true hline⟩)
    have hmap : (ls.map fun l => if (Worlds.propertyOf l).map (·.1) = some key then
        key ++ "=" ++ value else l) = ls := by
      conv_rhs => rw [← List.map_id ls]
      apply List.map_congr_left
      intro l hl
      exact if_neg (hnone l hl)
    have hset : Worlds.setProperty key value ls =
        (ls.map fun l => if (Worlds.propertyOf l).map (·.1) = some key then
          key ++ "=" ++ value else l) ++ [key ++ "=" ++ value] := if_neg hany
    rw [hset, hmap]

section

variable {ls : List String}

theorem mem_setProperty {l : String} : l ∈ Worlds.setProperty key value ls ↔
    l = key ++ "=" ++ value ∨ l ∈ ls ∧ ¬ IsLineOf key l := by
  rw [setProperty_eq]
  split
  · next hany =>
    obtain ⟨l', hl', hkey⟩ := List.any_eq_true.1 hany
    rw [List.mem_map]
    constructor
    · rintro ⟨l, hl, rfl⟩
      split
      · exact .inl rfl
      · next hnot => exact .inr ⟨hl, hnot⟩
    · rintro (rfl | ⟨hl, hnot⟩)
      · exact ⟨l', hl', if_pos (of_decide_eq_true hkey)⟩
      · exact ⟨l, hl, if_neg hnot⟩
  · next hany =>
    have hnone : ∀ l ∈ ls, ¬ IsLineOf key l := by
      intro l hl hkey
      exact hany (List.any_eq_true.2 ⟨l, hl, decide_eq_true hkey⟩)
    rw [List.mem_append, List.mem_singleton, or_comm]
    exact or_congr_right ⟨fun h => ⟨h, hnone l h⟩, fun h => h.1⟩

variable (hline : IsLineOf key (key ++ "=" ++ value))
include hline

/-- The lines that are not of the key stay as they are, and in their order. -/
theorem filter_setProperty : (Worlds.setProperty key value ls).filter (¬ IsLineOf key ·) =
    ls.filter (¬ IsLineOf key ·) := by
  have hmap : ∀ ls : List String,
      (ls.map fun l => if IsLineOf key l then key ++ "=" ++ value else l).filter
        (¬ IsLineOf key ·) = ls.filter (¬ IsLineOf key ·) := by
    intro ls
    induction ls with
    | nil => rfl
    | cons l ls ih =>
      rw [List.map_cons]
      by_cases hl : IsLineOf key l
      · rw [if_pos hl, List.filter_cons_of_neg (by simpa using hline),
          List.filter_cons_of_neg (by simpa using hl), ih]
      · rw [if_neg hl, List.filter_cons_of_pos (by simpa using hl),
          List.filter_cons_of_pos (by simpa using hl), ih]
  rw [setProperty_eq]
  split
  · exact hmap ls
  · rw [List.filter_append, List.filter_cons_of_neg (by simpa using hline), List.filter_nil,
      List.append_nil]

theorem setProperty_setProperty :
    Worlds.setProperty key value (Worlds.setProperty key value ls) =
      Worlds.setProperty key value ls := by
  have hmem := (@mem_setProperty key value ls _).2 (.inl rfl)
  have hany : (Worlds.setProperty key value ls).any (IsLineOf key) = true :=
    List.any_eq_true.2 ⟨_, hmem, decide_eq_true hline⟩
  rw [setProperty_eq, if_pos hany]
  conv_rhs => rw [← List.map_id (Worlds.setProperty key value ls)]
  apply List.map_congr_left
  intro l hl
  split
  · next hkey =>
    cases mem_setProperty.1 hl with
    | inl h => exact h.symm
    | inr h => exact absurd hkey h.2
  · rfl

end

/-- The pairs of another key come from the lines that are not of this one. -/
theorem filter_filterMap_of_ne {k : String} (hk : k ≠ key) (ls : List String) :
    (ls.filterMap Worlds.propertyOf).filter (·.1 = k) =
      ((ls.filter (¬ IsLineOf key ·)).filterMap Worlds.propertyOf).filter (·.1 = k) := by
  induction ls with
  | nil => rfl
  | cons l ls ih =>
    by_cases hl : IsLineOf key l
    · have hprop := hl
      rw [IsLineOf, Option.map_eq_some_iff] at hprop
      obtain ⟨⟨key', v⟩, hsome, rfl⟩ := hprop
      rw [List.filterMap_cons_some hsome, List.filter_cons_of_neg (by simpa using Ne.symm hk),
        List.filter_cons_of_neg (by simpa using hl), ih]
    · rw [List.filter_cons_of_pos (by simpa using hl)]
      cases hprop : Worlds.propertyOf l with
      | none => rw [List.filterMap_cons_none hprop, List.filterMap_cons_none hprop, ih]
      | some e =>
        rw [List.filterMap_cons_some hprop, List.filterMap_cons_some hprop, List.filter_cons,
          List.filter_cons, ih]

/-- The map of the written lines is the old one with the key set. -/
theorem lookup_setProperty (hkey : IsKey key) (value : String) (ls : List String) (k : String) :
    (GoMap.ofList ((Worlds.setProperty key value ls).filterMap Worlds.propertyOf)).lookup k =
      if k = key then some (trimSpace value)
      else (GoMap.ofList (ls.filterMap Worlds.propertyOf)).lookup k := by
  have hline := isLineOf_written hkey value
  rw [GoMap.lookup_ofList, GoMap.lookup_ofList]
  by_cases hk : k = key
  · subst hk
    rw [if_pos rfl]
    have hall : ∀ e ∈ ((Worlds.setProperty k value ls).filterMap Worlds.propertyOf).filter
        (·.1 = k), e = (k, trimSpace value) := by
      intro e he
      obtain ⟨he, hek⟩ := List.mem_filter.1 he
      obtain ⟨l, hl, hprop⟩ := List.mem_filterMap.1 he
      cases mem_setProperty.1 hl with
      | inl heq =>
        rw [heq, propertyOf_written hkey value] at hprop
        exact (Option.some.inj hprop).symm
      | inr hnot =>
        refine absurd ?_ hnot.2
        rw [IsLineOf, hprop]
        exact congrArg some (of_decide_eq_true hek)
    have hmem : (k, trimSpace value) ∈ ((Worlds.setProperty k value ls).filterMap Worlds.propertyOf).filter
        (·.1 = k) := by
      refine List.mem_filter.2 ⟨List.mem_filterMap.2 ⟨_, ?_, propertyOf_written hkey value⟩, ?_⟩
      · exact mem_setProperty.2 (.inl rfl)
      · exact decide_eq_true rfl
    cases hlast : (((Worlds.setProperty k value ls).filterMap Worlds.propertyOf).filter
        (·.1 = k)).getLast? with
    | none =>
      rw [List.getLast?_eq_none_iff] at hlast
      rw [hlast] at hmem
      cases hmem
    | some e =>
      rw [hall e (List.mem_of_getLast? hlast)]
      rfl
  · rw [if_neg hk, filter_filterMap_of_ne hk, filter_setProperty hline,
      ← filter_filterMap_of_ne hk]

end

/-! ## Reading what was written -/

/-- The lines that are read of a file. -/
def linesOf : Option String → List String
  | none => []
  | some text => (scanProperties text).1

theorem linesOf_some (text : String) : linesOf (some text) = (scanProperties text).1 := rfl

/-- A line without the `\r` at its end. -/
def trimCR (line : String) : String := String.ofList (dropCR line.toList)

theorem toList_joinLines {ls : List String} (hne : ls ≠ []) :
    (joinLines ls).toList = broken (ls.map String.toList) := by
  induction ls with
  | nil => exact absurd rfl hne
  | cons l ls ih =>
    rw [List.map_cons, broken_cons]
    by_cases hnil : ls = []
    · subst hnil
      rw [joinLines, String.intercalate_singleton, String.toList_append]
      rfl
    · have hjoin : joinLines (l :: ls) = l ++ "\n" ++ joinLines ls := by
        rw [joinLines, String.intercalate_cons_of_ne_nil hnil, joinLines]
        simp only [String.append_assoc]
      rw [hjoin, String.toList_append, String.toList_append, ih hnil, List.append_assoc]
      rfl

section

variable {ls : List String} (hne : ls ≠ []) (hbreak : ∀ l ∈ ls, '\n' ∉ l.toList)
include hne hbreak

theorem scanProperties_joinLines (hfit : ∀ l ∈ ls, byteLength l.toList < maxScanTokenSize) :
    scanProperties (joinLines ls) = (ls.map trimCR, none) := by
  have hscan : scanFrom [] (broken (ls.map String.toList)) =
      ((ls.map String.toList).map dropCR, false) := by
    apply scanFrom_broken
    · exact List.forall_mem_map.2 hbreak
    · exact List.forall_mem_map.2 hfit
  rw [scanProperties, toList_joinLines hne, hscan, List.map_map, List.map_map]
  rfl

theorem scanProperties_joinLines_of_long {l : String} (hl : l ∈ ls)
    (hlong : maxScanTokenSize ≤ byteLength l.toList) : (scanProperties (joinLines ls)).2 ≠ none := by
  have hscan : (scanFrom [] (broken (ls.map String.toList))).2 = true :=
    scanFrom_broken_of_long (List.forall_mem_map.2 hbreak) (List.mem_map_of_mem hl) hlong
  rw [scanProperties, toList_joinLines hne]
  simp only [hscan, if_true]
  exact Option.some_ne_none _

end

theorem of_mem_linesOf {content : Option String} {l : String} (h : l ∈ linesOf content) :
    '\n' ∉ l.toList ∧ byteLength l.toList < maxScanTokenSize := by
  cases content with
  | none => cases h
  | some text =>
    obtain ⟨cs, hcs, rfl⟩ := List.mem_map.1 h
    rw [String.toList_ofList]
    exact of_mem_scanFrom (by simp) hcs

theorem isLineOf_trimCR (key line : String) :
    decide (¬ IsLineOf key (trimCR line)) = decide (¬ IsLineOf key line) := by
  have hsame : IsLineOf key (trimCR line) = IsLineOf key line := by
    rw [IsLineOf, trimCR, propertyOf_dropCR, IsLineOf]
  simp only [hsame]

theorem filter_map_comm {α : Type} (p : α → Bool) (f : α → α) (h : ∀ a, p (f a) = p a)
    (l : List α) : (l.map f).filter p = (l.filter p).map f := by
  rw [List.filter_map]
  apply congrArg (List.map f)
  exact List.filter_congr fun a _ => h a

/-! ## Writing -/

theorem notMem_of_hasLineBreak {s : String} (h : Worlds.hasLineBreak s = false) :
    '\r' ∉ s.toList ∧ '\n' ∉ s.toList := by
  rw [Worlds.hasLineBreak, List.any_eq_false] at h
  exact ⟨fun hmem => h _ hmem (by decide), fun hmem => h _ hmem (by decide)⟩

section

variable {path tmp key value : String} {f : AtomicFile}

/-- A write without a fault writes the lines with the property set. -/
theorem writeProperty_eq (hkey : Worlds.hasLineBreak key = false)
    (hvalue : Worlds.hasLineBreak value = false) (hread : (readProperties f.content).2 = none) :
    writeProperty {} path tmp key value f = (.ok (), { f with
      content := some (joinLines (Worlds.setProperty key value (linesOf f.content))) }) := by
  rw [writeProperty, hkey, hvalue]
  cases hf : f.content with
  | none => rfl
  | some text =>
    rw [hf] at hread
    simp only [readProperties, parseProperties] at hread
    simp only [Bool.or_self, Bool.false_eq_true, if_false, Option.none_or, hread]
    rfl

/-- A write that is refused or fails leaves the file as it was. -/
theorem content_of_writeProperty_error {fault : PropertyFaults} {err : String} {f' : AtomicFile}
    (h : writeProperty fault path tmp key value f = (.error err, f')) : f'.content = f.content := by
  have hatomic : ∀ {fault : Option WriteFault} {data : String},
      writeFileAtomic fault path tmp data f = (.error err, f') → f'.content = f.content := by
    intro fault data h
    cases fault with
    | none => cases h
    | some fault =>
      rw [writeFileAtomic] at h
      obtain rfl := (Prod.mk.inj h).2
      split <;> rfl
  rw [writeProperty] at h
  split at h
  · cases h
    rfl
  · split at h
    · cases h
      rfl
    · split at h
      · exact hatomic h
      · split at h
        · cases h
          rfl
        · exact hatomic h

/-- A write changes the property it is for, and that only, or nothing. -/
structure WritesOnly (path tmp key value : String) (f : AtomicFile) : Prop where
  written : ∃ text,
    writeProperty {} path tmp key value f = (.ok (), { f with content := some text }) ∧
      (parseProperties text).2 = none ∧
      (∀ k, (parseProperties text).1.lookup k =
        if k = key then some value else (readProperties f.content).1.lookup k) ∧
      (scanProperties text).1.filter (¬ IsLineOf key ·) =
        (linesOf f.content).filter (¬ IsLineOf key ·) ∧
      writeProperty {} path tmp key value { f with content := some text } =
        (.ok (), { f with content := some text })
  failed : ∀ fault err f', writeProperty fault path tmp key value f = (.error err, f') →
    f'.content = f.content

/-- No line that is kept ends in a `\r`, and the line of the property fits into the scanner's
buffer. -/
structure KeepsLines (key value : String) (f : AtomicFile) : Prop where
  ends : ∀ l ∈ linesOf f.content, ¬ IsLineOf key l → l.toList.getLast? ≠ some '\r'
  fits : byteLength (key ++ "=" ++ value).toList < maxScanTokenSize

theorem trimCR_eq_self_iff (l : String) : trimCR l = l ↔ l.toList.getLast? ≠ some '\r' := by
  rw [trimCR, dropCR]
  split
  · next hlast =>
    refine iff_of_false (fun heq => ?_) (fun hne => hne hlast)
    have hlist := congrArg String.toList heq
    rw [String.toList_ofList] at hlist
    have hlength := congrArg List.length hlist
    have hne : l.toList ≠ [] := by
      intro hnil
      rw [hnil] at hlast
      cases hlast
    have hpos := List.length_pos_of_ne_nil hne
    rw [List.length_dropLast] at hlength
    omega
  · next hlast =>
    rw [String.ofList_toList]
    exact iff_of_true rfl hlast

theorem setProperty_ne_nil (ls : List String) : Worlds.setProperty key value ls ≠ [] := by
  have hmem : key ++ "=" ++ value ∈ Worlds.setProperty key value ls := mem_setProperty.2 (.inl rfl)
  intro hnil
  rw [hnil] at hmem
  cases hmem

section

variable (hkey : Worlds.hasLineBreak key = false) (hvalue : Worlds.hasLineBreak value = false)
include hkey hvalue

theorem written_ends : (key ++ "=" ++ value).toList.getLast? ≠ some '\r' := by
  intro hlast
  have hmem := List.mem_of_getLast? hlast
  rw [String.toList_append, String.toList_append, List.mem_append, List.mem_append] at hmem
  obtain (hmem | hmem) | hmem := hmem
  · exact (notMem_of_hasLineBreak hkey).1 hmem
  · revert hmem
    decide
  · exact (notMem_of_hasLineBreak hvalue).1 hmem

theorem written_break : '\n' ∉ (key ++ "=" ++ value).toList := by
  intro hmem
  rw [String.toList_append, String.toList_append, List.mem_append, List.mem_append] at hmem
  obtain (hmem | hmem) | hmem := hmem
  · exact (notMem_of_hasLineBreak hkey).2 hmem
  · revert hmem
    decide
  · exact (notMem_of_hasLineBreak hvalue).2 hmem

theorem break_of_mem_setProperty {l : String}
    (h : l ∈ Worlds.setProperty key value (linesOf f.content)) : '\n' ∉ l.toList := by
  cases mem_setProperty.1 h with
  | inl h => exact h ▸ written_break hkey hvalue
  | inr h => exact (of_mem_linesOf h.1).1

theorem scanProperties_written (hfit : byteLength (key ++ "=" ++ value).toList < maxScanTokenSize) :
    scanProperties (joinLines (Worlds.setProperty key value (linesOf f.content))) =
      ((Worlds.setProperty key value (linesOf f.content)).map trimCR, none) := by
  apply scanProperties_joinLines (setProperty_ne_nil _)
    fun l hl => break_of_mem_setProperty hkey hvalue hl
  intro l hl
  cases mem_setProperty.1 hl with
  | inl h => exact h ▸ hfit
  | inr h => exact (of_mem_linesOf h.1).2

/-- The lines of a write are read back as they are where no kept line ends in a `\r`. -/
theorem map_trimCR_setProperty (h : KeepsLines key value f) :
    (Worlds.setProperty key value (linesOf f.content)).map trimCR =
      Worlds.setProperty key value (linesOf f.content) := by
  conv_rhs => rw [← List.map_id (Worlds.setProperty key value (linesOf f.content))]
  apply List.map_congr_left
  intro l hl
  rw [id_eq, trimCR_eq_self_iff]
  cases mem_setProperty.1 hl with
  | inl heq => exact heq ▸ written_ends hkey hvalue
  | inr hnot => exact h.ends l hnot.1 hnot.2

end

variable (hkey : IsKey key) (hvalue : IsValue value)
include hkey hvalue

theorem writesOnly_of_keepsLines (hread : (readProperties f.content).2 = none)
    (h : KeepsLines key value f) : WritesOnly path tmp key value f := by
  have hscan := scanProperties_written hkey.line hvalue.line (f := f) h.fits
  rw [map_trimCR_setProperty hkey.line hvalue.line h] at hscan
  have hline := isLineOf_written hkey value
  refine ⟨⟨_, writeProperty_eq hkey.line hvalue.line hread, ?_, fun k => ?_, ?_, ?_⟩,
    fun fault err f' => content_of_writeProperty_error⟩
  · rw [parseProperties, hscan]
  · have hold : (readProperties f.content).1 =
        GoMap.ofList ((linesOf f.content).filterMap Worlds.propertyOf) := by
      cases f.content <;> rfl
    rw [parseProperties, hscan, hold]
    have hlookup := lookup_setProperty hkey value (linesOf f.content) k
    rwa [hvalue.trimmed] at hlookup
  · rw [hscan]
    exact filter_setProperty hline
  · have hagain : (readProperties (some
        (joinLines (Worlds.setProperty key value (linesOf f.content))))).2 = none := by
      rw [readProperties, parseProperties, hscan]
    rw [writeProperty_eq hkey.line hvalue.line hagain, linesOf_some, hscan,
      setProperty_setProperty hline]

theorem keepsLines_of_writesOnly (hread : (readProperties f.content).2 = none)
    (h : WritesOnly path tmp key value f) : KeepsLines key value f := by
  obtain ⟨text, hwrite, hparse, -, hlines, -⟩ := h.written
  rw [writeProperty_eq hkey.line hvalue.line hread] at hwrite
  have htext : text = joinLines (Worlds.setProperty key value (linesOf f.content)) := by
    have hfile := congrArg AtomicFile.content (Prod.mk.inj hwrite).2
    exact (Option.some.inj hfile).symm
  have hfits : byteLength (key ++ "=" ++ value).toList < maxScanTokenSize := by
    by_contra hlong
    have hmem : key ++ "=" ++ value ∈ Worlds.setProperty key value (linesOf f.content) :=
      mem_setProperty.2 (.inl rfl)
    have hstop := scanProperties_joinLines_of_long (setProperty_ne_nil (linesOf f.content))
      (fun l hl => break_of_mem_setProperty hkey.line hvalue.line hl) hmem (Nat.le_of_not_lt hlong)
    rw [← htext] at hstop
    exact hstop hparse
  refine ⟨fun l hl hnot => ?_, hfits⟩
  rw [htext, scanProperties_written hkey.line hvalue.line hfits] at hlines
  -- The lines that are kept are read without their `\r`, so none of them had one.
  have hkept := filter_map_comm (fun l => decide (¬ IsLineOf key l)) trimCR
    (fun l => isLineOf_trimCR key l) (Worlds.setProperty key value (linesOf f.content))
  rw [hkept, filter_setProperty (isLineOf_written hkey value)] at hlines
  rw [← trimCR_eq_self_iff]
  exact List.map_inj_left.1 (hlines.trans (List.map_id _).symm) l
    (List.mem_filter.2 ⟨hl, by simpa using hnot⟩)

end

/-- Writing a property changes it, and no other line, exactly where no line that is kept ends in a
`\r` and its own line fits into the scanner's buffer. -/
theorem writesOnly_iff {path tmp key value : String} {f : AtomicFile} (hkey : IsKey key)
    (hvalue : IsValue value) (hread : (readProperties f.content).2 = none) :
    WritesOnly path tmp key value f ↔ KeepsLines key value f :=
  ⟨keepsLines_of_writesOnly hkey hvalue hread, writesOnly_of_keepsLines hkey hvalue hread⟩

theorem isKey_motd : IsKey "motd" := ⟨by decide, by decide, by decide, by decide⟩

theorem isValue_hi : IsValue "hi" := ⟨by decide, by decide⟩

/-- A comment, the key twice and an unrelated line, with both kinds of line breaks. -/
theorem writesOnly_iff_motd :
    let f : AtomicFile := ⟨some "# c\r\nmotd=a\nx=1\n motd = b", none⟩
    WritesOnly "server.properties" "tmp" "motd" "hi" f := by
  intro f
  refine (writesOnly_iff isKey_motd isValue_hi (by decide +kernel)).2 ⟨?_, by decide +kernel⟩
  have hlines : linesOf f.content = ["# c", "motd=a", "x=1", " motd = b"] := by decide +kernel
  rw [hlines]
  decide +kernel

/-- A comment that ends in two `\r` loses one of them with every write. -/
theorem not_writesOnly_doubleCR :
    let f : AtomicFile := ⟨some "# c\r\r\nmotd=a\n", none⟩
    (readProperties f.content).2 = none ∧
      writeProperty {} "server.properties" "tmp" "motd" "hi" f =
        (.ok (), ⟨some "# c\r\nmotd=hi\n", none⟩) ∧
      writeProperty {} "server.properties" "tmp" "motd" "hi" ⟨some "# c\r\nmotd=hi\n", none⟩ =
        (.ok (), ⟨some "# c\nmotd=hi\n", none⟩) ∧
      ¬ WritesOnly "server.properties" "tmp" "motd" "hi" f := by
  intro f
  have hread : (readProperties f.content).2 = none := by decide +kernel
  have hlines : linesOf f.content = ["# c\r", "motd=a"] := by decide +kernel
  refine ⟨hread, by decide +kernel, by decide +kernel, fun h => ?_⟩
  have hends := (keepsLines_of_writesOnly isKey_motd isValue_hi hread h).ends
  rw [hlines] at hends
  exact hends "# c\r" (by decide) (by decide +kernel) (by decide)

end Konnekt.Server
