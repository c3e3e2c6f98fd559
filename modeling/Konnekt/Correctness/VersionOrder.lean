import Konnekt.Update.Versions
import Mathlib.Logic.Relation
import Mathlib.Tactic.IntervalCases

/-!
# The order of versions

Comparing two versions is comparing their keys: the three numbers of the core, and behind
them the identifiers of the prerelease, where no prerelease is above every other. That
makes it a preorder. The script compares the same keys, but for a core that it reads as
other numbers than the updater does.
-/

namespace Konnekt.Update

open Go

/-! ## Keys -/

/-- The key of an identifier: numbers below text. -/
def identifierKey (s : String) : ℤ ⊕ₗ String :=
  match numericIdentifier s with
  | some n => Sum.inlₗ n
  | none => Sum.inrₗ s

/-- The key of a prerelease: its identifiers, or above all of them. -/
def prereleaseKey (p : String) : WithTop (List (ℤ ⊕ₗ String)) :=
  if p = "" then ⊤ else ((split p '.').map identifierKey : List (ℤ ⊕ₗ String))

/-- The key of a version. -/
def precedence (v : String) : List ℤ ×ₗ WithTop (List (ℤ ⊕ₗ String)) :=
  toLex (parseVersionCore (splitVersion v).1, prereleaseKey (splitVersion v).2)

theorem comparePrereleaseIdentifier_eq (a b : String) :
    comparePrereleaseIdentifier a b = threeWay (identifierKey a) (identifierKey b) := by
  unfold comparePrereleaseIdentifier identifierKey
  cases numericIdentifier a with
  | none =>
    cases numericIdentifier b with
    | none => exact (threeWay_inrₗ a b).symm
    | some n => exact (threeWay_inrₗ_inlₗ a n).symm
  | some m =>
    cases numericIdentifier b with
    | none => exact (threeWay_inlₗ_inrₗ m b).symm
    | some n => exact (threeWay_inlₗ m n).symm

theorem compareIdentifiers_eq (as bs : List String) :
    compareIdentifiers as bs = threeWay (as.map identifierKey) (bs.map identifierKey) := by
  induction as generalizing bs with
  | nil =>
    cases bs with
    | nil => rfl
    | cons b bs => exact (threeWay_nil_cons _ _).symm
  | cons a as ih =>
    cases bs with
    | nil => exact (threeWay_cons_nil _ _).symm
    | cons b bs =>
      rw [List.map_cons, List.map_cons, threeWay_cons, ← comparePrereleaseIdentifier_eq, ← ih]
      rfl

theorem compareCores_eq {as bs : List Int} (h : as.length = bs.length) :
    compareCores as bs = threeWay as bs := by
  induction as generalizing bs with
  | nil =>
    cases bs with
    | nil => rfl
    | cons b bs => simp at h
  | cons a as ih =>
    cases bs with
    | nil => simp at h
    | cons b bs =>
      rw [compareCores, threeWay_cons, ih (Nat.succ.inj h)]
      rcases lt_trichotomy a b with hlt | rfl | hlt
      · rw [threeWay_of_lt hlt, if_pos hlt.ne, if_pos hlt]
        rfl
      · simp
      · rw [threeWay_of_gt hlt, if_pos hlt.ne', if_neg hlt.not_gt]
        rfl

@[simp] theorem length_readCore (read : String → Option Int) (core : String) :
    (readCore read core).length = 3 := by
  simp [readCore]

/-- What stands behind equal cores is a comparison of the prereleases. -/
theorem compare_prereleases (preA preB : String) :
    (if preA = "" ∧ preB = "" then 0
      else if preA = "" ∧ preB ≠ "" then 1
      else if preA ≠ "" ∧ preB = "" then -1
      else comparePrerelease preA preB) =
      threeWay (prereleaseKey preA) (prereleaseKey preB) := by
  by_cases hA : preA = ""
  · by_cases hB : preB = ""
    · simp [hA, hB]
    · simp [hA, hB, prereleaseKey]
  · by_cases hB : preB = ""
    · simp [hA, hB, prereleaseKey]
    · simp [hA, hB, prereleaseKey, comparePrerelease, compareIdentifiers_eq]

theorem compareVersions_eq (a b : String) :
    compareVersions a b = threeWay (precedence a) (precedence b) := by
  rw [precedence, precedence, threeWay_toLex, ← compare_prereleases,
    ← compareCores_eq (by simp [parseVersionCore])]
  unfold compareVersions
  generalize splitVersion a = coreA
  generalize splitVersion b = coreB
  rfl

/-! ## Offers -/

/-- A build is told of another version, whatever the releases and the setting are. -/
def Offered (v w : String) : Prop :=
  ∃ stable snap setting info, checkForUpdates stable snap v setting = .ok info ∧
    info.updateAvailable = true ∧ info.latestVersion = w

theorem precedence_lt_of_offered {v w : String} (h : Offered v w) :
    precedence v < precedence w := by
  obtain ⟨stable, snap, setting, info, hcheck, havailable, rfl⟩ := h
  unfold checkForUpdates at hcheck
  dsimp only at hcheck
  split at hcheck
  · cases hcheck
  · obtain rfl := Except.ok.inj hcheck
    cases havailable
  · obtain rfl := Except.ok.inj hcheck
    dsimp only at havailable
    rw [decide_eq_true_eq, gt_iff_lt, compareVersions_eq, threeWay_pos_iff] at havailable
    exact havailable

theorem precedence_lt_of_offers {v w : String} (h : Relation.TransGen Offered v w) :
    precedence v < precedence w := by
  induction h with
  | single h => exact precedence_lt_of_offered h
  | tail _ h ih => exact ih.trans (precedence_lt_of_offered h)

/-- Of two releases the one chosen is no lower than the other. -/
theorem le_resolveCandidate {stable snap c : Candidate}
    (h : resolveCandidate (.ok (some stable)) (.ok (some snap)) "snapshot" = .ok (some c)) :
    0 ≤ compareVersions c.version stable.version ∧
      0 ≤ compareVersions c.version snap.version := by
  rw [resolveCandidate, if_neg (not_not.2 rfl)] at h
  simp only [compareVersions_eq, threeWay_nonneg_iff]
  split_ifs at h with hlt
  · cases h
    rw [gt_iff_lt, compareVersions_eq, threeWay_pos_iff] at hlt
    exact ⟨hlt.le, le_rfl⟩
  · cases h
    rw [gt_iff_lt, compareVersions_eq, threeWay_pos_iff, not_lt] at hlt
    exact ⟨le_rfl, hlt⟩

/-! ## Numbers in decimal -/

theorem decimalVal_append {cs : List Char} (h : cs ≠ []) (c : Char) :
    decimalVal (cs ++ [c]) =
      (decimalVal cs).bind fun n => (digitVal c).map (n * 10 + ·) := by
  cases cs with
  | nil => exact absurd rfl h
  | cons d cs => simp [decimalVal]

theorem digitVal_natDigit {d : Nat} (h : d < 10) : digitVal (Nat.digitChar d) = some d := by
  interval_cases d <;> decide

theorem decimalVal_toDigits (n : Nat) : decimalVal (Nat.toDigits 10 n) = some n := by
  induction n using Nat.strong_induction_on with
  | _ n ih =>
    by_cases hlt : n < 10
    · rw [Nat.toDigits_of_lt_base hlt]
      simp [decimalVal, digitVal_natDigit hlt]
    · have hne : Nat.toDigits 10 (n / 10) ≠ [] := Nat.toDigits_ne_nil
      rw [Nat.toDigits_of_base_le (by decide) (by omega), decimalVal_append hne,
        ih (n / 10) (by omega), Option.bind_some, digitVal_natDigit (Nat.mod_lt n (by decide)),
        Option.map_some, Option.some_inj]
      omega

/-- A run of digits is a number. -/
theorem exists_decimalVal {cs : List Char} (hne : cs ≠ []) (h : ∀ c ∈ cs, (digitVal c).isSome) :
    ∃ n, decimalVal cs = some n := by
  induction cs using List.reverseRecOn with
  | nil => exact absurd rfl hne
  | append_singleton cs c ih =>
    obtain ⟨d, hd⟩ := Option.isSome_iff_exists.1 (h c (by simp))
    by_cases hcs : cs = []
    · subst hcs
      exact ⟨d, by simp [decimalVal, hd]⟩
    · obtain ⟨n, hn⟩ := ih hcs fun c hc => h c (by simp [hc])
      refine ⟨n * 10 + d, ?_⟩
      rw [decimalVal_append hcs, hn, hd]
      rfl

theorem digitVal_isSome_iff (c : Char) : (digitVal c).isSome ↔ '0' ≤ c ∧ c ≤ '9' := by
  unfold digitVal
  split_ifs with h <;> simp [h]

/-- What a digit is not. -/
theorem ne_of_digit {c : Char} (h : (digitVal c).isSome) :
    c ≠ '+' ∧ c ≠ '-' ∧ c ≠ '_' ∧ c ≠ '.' ∧ c ≠ 'v' ∧ Script.isSpace c = false := by
  obtain ⟨hlow, hhigh⟩ := (digitVal_isSome_iff c).1 h
  have hlow : 48 ≤ c.toNat := hlow
  have hhigh : c.toNat ≤ 57 := hhigh
  have hne : ∀ d : Char, d.toNat < 48 ∨ 57 < d.toNat → c ≠ d := by
    rintro d hd rfl
    omega
  refine ⟨hne _ (by decide), hne _ (by decide), hne _ (by decide), hne _ (by decide),
    hne _ (by decide), ?_⟩
  have hspace : c ≠ ' ' := hne _ (by decide)
  simp [Script.isSpace, hspace]
  omega

theorem isSome_of_allDigits {s : String} (h : allDigits s = true) :
    s.toList ≠ [] ∧ ∀ c ∈ s.toList, (digitVal c).isSome := by
  rw [allDigits, Bool.and_eq_true, decide_eq_true_eq, List.all_eq_true] at h
  refine ⟨?_, ?_⟩
  · rw [Ne, ← String.toList_eq_nil_iff] at h
    exact h.1
  · intro c hc
    rw [digitVal_isSome_iff]
    exact of_decide_eq_true (h.2 c hc)

section

variable {s : String} {n : Nat}

/-- A run of digits has no sign. -/
theorem parseInt_of_digits (hne : s.toList ≠ []) (h : ∀ c ∈ s.toList, (digitVal c).isSome)
    (hn : decimalVal s.toList = some n) (fn : String) :
    (parseInt fn s).toOption = if (n : Int) ≤ maxInt64 then some (n : Int) else none := by
  have hlow : minInt64 ≤ (n : Int) := by
    have hmin : minInt64 ≤ 0 := by decide
    omega
  unfold parseInt
  cases hcs : s.toList with
  | nil => exact absurd hcs hne
  | cons c cs =>
    have hc := ne_of_digit (h c (by simp [hcs]))
    rw [hcs] at hn
    split
    · rename_i heq
      exact absurd (List.cons.inj heq).1 hc.1
    · rename_i heq
      exact absurd (List.cons.inj heq).1 hc.2.1
    · rw [hn]
      dsimp only [Option.map_some]
      by_cases hle : (n : Int) ≤ maxInt64
      · rw [if_pos hle, if_pos ⟨hlow, hle⟩]
        rfl
      · rw [if_neg hle, if_neg fun h => hle h.2]
        rfl

theorem underscored_of_digits {cs : List Char} (hne : cs ≠ [])
    (h : ∀ c ∈ cs, (digitVal c).isSome) : Script.underscored cs = some cs := by
  induction cs with
  | nil => exact absurd rfl hne
  | cons c cs ih =>
    have hc : (digitVal c).isSome = true := h c List.mem_cons_self
    cases cs with
    | nil => simp [Script.underscored, hc]
    | cons d cs =>
      have hd : d ≠ '_' := (ne_of_digit (h d (by simp))).2.2.1
      have hrest := ih (by simp) fun c hc => h c (List.mem_cons_of_mem _ hc)
      unfold Script.underscored
      split <;> simp_all

theorem strip_of_digits {cs : List Char} (h : ∀ c ∈ cs, (digitVal c).isSome) :
    ((cs.dropWhile Script.isSpace).reverse.dropWhile Script.isSpace).reverse = cs := by
  have hkeep : ∀ cs : List Char, (∀ c ∈ cs, (digitVal c).isSome) →
      cs.dropWhile Script.isSpace = cs := by
    intro cs h
    rw [List.dropWhile_eq_self_iff]
    intro hlen
    simp [(ne_of_digit (h _ (List.getElem_mem hlen))).2.2.2.2.2]
  rw [hkeep cs h, hkeep cs.reverse fun c hc => h c (List.mem_reverse.1 hc), List.reverse_reverse]

theorem int_of_digits (hne : s.toList ≠ []) (h : ∀ c ∈ s.toList, (digitVal c).isSome)
    (hn : decimalVal s.toList = some n) :
    Script.int s = if Script.maxStrDigits < s.length then none else some (n : Int) := by
  unfold Script.int
  rw [strip_of_digits h]
  cases hcs : s.toList with
  | nil => exact absurd hcs hne
  | cons c cs =>
    have hc := ne_of_digit (h c (by simp [hcs]))
    have hmagnitude : Script.magnitude (c :: cs) =
        if Script.maxStrDigits < s.length then none else some n := by
      rw [Script.magnitude, ← hcs, underscored_of_digits hne h]
      dsimp only
      rw [hn, String.length_toList]
    split
    · rename_i heq
      exact absurd (List.cons.inj heq).1 hc.1
    · rename_i heq
      exact absurd (List.cons.inj heq).1 hc.2.1
    · rw [hmagnitude]
      split_ifs <;> rfl

end

/-! ## The script's comparison -/

/-- A number of more digits than the script takes. -/
def tooLong (id : String) : Bool := allDigits id && decide (Script.maxStrDigits < id.length)

/-- The identifiers of a prerelease are all taken by the script. -/
def Fits (p : String) : Prop := ∀ id ∈ split p '.', tooLong id = false

instance (p : String) : Decidable (Fits p) :=
  inferInstanceAs (Decidable (∀ id ∈ split p '.', tooLong id = false))

theorem numericIdentifier_of_not_tooLong {id : String} (h : tooLong id = false) :
    Script.numericIdentifier id = some (numericIdentifier id) := by
  unfold Script.numericIdentifier numericIdentifier
  by_cases hdigits : allDigits id = true
  · obtain ⟨hne, hall⟩ := isSome_of_allDigits hdigits
    obtain ⟨n, hn⟩ := exists_decimalVal hne hall
    rw [tooLong, hdigits, Bool.true_and, decide_eq_false_iff_not] at h
    rw [if_pos hdigits, if_pos hdigits, int_of_digits hne hall hn, if_neg h,
      parseInt_of_digits hne hall hn]
    rfl
  · rw [if_neg hdigits, if_neg hdigits]

theorem numericIdentifier_of_tooLong {id : String} (h : tooLong id = true) :
    Script.numericIdentifier id = none := by
  rw [tooLong, Bool.and_eq_true, decide_eq_true_eq] at h
  obtain ⟨hne, hall⟩ := isSome_of_allDigits h.1
  obtain ⟨n, hn⟩ := exists_decimalVal hne hall
  rw [Script.numericIdentifier, if_pos h.1, int_of_digits hne hall hn, if_pos h.2]
  rfl

theorem script_compareIdentifier {a b : String} (ha : tooLong a = false)
    (hb : tooLong b = false) :
    Script.compareIdentifier a b = some (comparePrereleaseIdentifier a b) := by
  rw [Script.compareIdentifier, numericIdentifier_of_not_tooLong ha,
    numericIdentifier_of_not_tooLong hb, comparePrereleaseIdentifier]
  cases numericIdentifier a <;> cases numericIdentifier b <;> rfl

theorem script_compareIdentifiers {as bs : List String} (ha : ∀ id ∈ as, tooLong id = false)
    (hb : ∀ id ∈ bs, tooLong id = false) :
    Script.compareIdentifiers as bs = some (compareIdentifiers as bs) := by
  induction as generalizing bs with
  | nil => cases bs <;> rfl
  | cons a as ih =>
    cases bs with
    | nil => rfl
    | cons b bs =>
      rw [List.forall_mem_cons] at ha hb
      rw [Script.compareIdentifiers, script_compareIdentifier ha.1 hb.1, ih ha.2 hb.2,
        compareIdentifiers]
      exact (apply_ite some _ _ _).symm

/-- A number that is too long is reached behind what both share. -/
theorem script_compareIdentifiers_of_tooLong {shared as bs : List String} {a b : String}
    (hshared : ∀ id ∈ shared, tooLong id = false) (ha : tooLong a = true) :
    Script.compareIdentifiers (shared ++ a :: as) (shared ++ b :: bs) = none := by
  induction shared with
  | nil =>
    rw [List.nil_append, List.nil_append, Script.compareIdentifiers, Script.compareIdentifier,
      numericIdentifier_of_tooLong ha]
    rfl
  | cons id shared ih =>
    rw [List.forall_mem_cons] at hshared
    have hself : comparePrereleaseIdentifier id id = 0 := by
      rw [comparePrereleaseIdentifier_eq, threeWay_self]
    rw [List.cons_append, List.cons_append, Script.compareIdentifiers,
      script_compareIdentifier hshared.1 hshared.1, hself, ih hshared.2]
    rfl

/-- What the script compares behind equal cores. -/
theorem script_prereleases {preA preB : String} (hA : Fits preA) (hB : Fits preB) :
    (if preA = "" ∧ preB = "" then some 0
      else if preA = "" then some 1
      else if preB = "" then some (-1)
      else Script.comparePrerelease preA preB) =
      some (threeWay (prereleaseKey preA) (prereleaseKey preB)) := by
  rw [← compare_prereleases]
  by_cases ha : preA = ""
  · by_cases hb : preB = ""
    · simp [ha, hb]
    · simp [ha, hb]
  · by_cases hb : preB = ""
    · simp [ha, hb]
    · simp [ha, hb, Script.comparePrerelease, comparePrerelease,
        script_compareIdentifiers hA hB]

theorem script_compareVersions_def (a b : String) : Script.compareVersions a b =
    if compareCores (Script.parseCore (splitVersion a).1)
        (Script.parseCore (splitVersion b).1) ≠ 0 then
      some (compareCores (Script.parseCore (splitVersion a).1)
        (Script.parseCore (splitVersion b).1))
    else if (splitVersion a).2 = "" ∧ (splitVersion b).2 = "" then some 0
    else if (splitVersion a).2 = "" then some 1
    else if (splitVersion b).2 = "" then some (-1)
    else Script.comparePrerelease (splitVersion a).2 (splitVersion b).2 := by
  unfold Script.compareVersions
  generalize splitVersion a = coreA
  generalize splitVersion b = coreB
  rfl

/-- The script compares what it reads of the cores, and then the prereleases. -/
theorem script_compareVersions {a b : String} (hA : Fits (splitVersion a).2)
    (hB : Fits (splitVersion b).2) :
    Script.compareVersions a b = some
      (threeWay
        (toLex (Script.parseCore (splitVersion a).1, prereleaseKey (splitVersion a).2))
        (toLex (Script.parseCore (splitVersion b).1, prereleaseKey (splitVersion b).2))) := by
  have hlength : (Script.parseCore (splitVersion a).1).length =
      (Script.parseCore (splitVersion b).1).length := by
    simp [Script.parseCore]
  rw [script_compareVersions_def, threeWay_toLex, ← compareCores_eq hlength, apply_ite some,
    ← script_prereleases hA hB]

/-- Different cores decide before anything else is looked at. -/
theorem script_compareVersions_of_ne {a b : String}
    (h : Script.parseCore (splitVersion a).1 ≠ Script.parseCore (splitVersion b).1) :
    Script.compareVersions a b = some
      (threeWay (Script.parseCore (splitVersion a).1) (Script.parseCore (splitVersion b).1)) := by
  have hlength : (Script.parseCore (splitVersion a).1).length =
      (Script.parseCore (splitVersion b).1).length := by
    simp [Script.parseCore]
  have hne : compareCores (Script.parseCore (splitVersion a).1)
      (Script.parseCore (splitVersion b).1) ≠ 0 := by
    rwa [compareCores_eq hlength, Ne, threeWay_eq_zero_iff]
  rw [script_compareVersions_def, ← compareCores_eq hlength, if_pos hne]

/-! ## Versions the script reads as the updater does -/

/-- A part of a core is the same number to the updater and the script, or none to both. -/
def ReadAlike (part : String) : Prop := (atoi part).getD 0 = (Script.int part).getD 0

/-- A version the script reads as the updater does. -/
structure WellRead (v : String) : Prop where
  core : ∀ part ∈ splitThree (splitVersion v).1 '.', ReadAlike part
  prerelease : Fits (splitVersion v).2

instance (part : String) : Decidable (ReadAlike part) :=
  inferInstanceAs (Decidable ((atoi part).getD 0 = (Script.int part).getD 0))

theorem length_cutParts (c : Char) (n : Nat) (s : List Char) :
    (cutParts c n s).length ≤ n + 1 := by
  induction n generalizing s with
  | zero => simp [cutParts]
  | succ n ih =>
    unfold cutParts
    split
    · simp
    · rw [List.length_cons]
      exact Nat.succ_le_succ (ih _)

/-- The cores are read as the same numbers when their parts are. -/
theorem parseCore_eq_iff (core : String) : parseVersionCore core = Script.parseCore core ↔
    ∀ part ∈ splitThree core '.', ReadAlike part := by
  have hlength : (splitThree core '.').length ≤ 3 := by
    rw [splitThree, List.length_map]
    exact length_cutParts _ _ _
  rw [parseVersionCore, Script.parseCore, readCore, readCore, List.map_inj_left]
  constructor
  · intro h part hpart
    obtain ⟨i, hi, rfl⟩ := List.mem_iff_getElem.1 hpart
    have hread := h i (List.mem_range.2 (by omega))
    rw [List.getElem?_eq_getElem hi, Option.bind_some, Option.bind_some] at hread
    exact hread
  · intro h i hi
    cases hpart : (splitThree core '.')[i]? with
    | none => rfl
    | some part => exact h part (List.mem_of_getElem? hpart)

theorem WellRead.parseCore_eq {v : String} (h : WellRead v) :
    parseVersionCore (splitVersion v).1 = Script.parseCore (splitVersion v).1 :=
  (parseCore_eq_iff _).2 h.core

/-- Two such versions are ordered by the script as by the updater. -/
theorem WellRead.compareVersions_eq {a b : String} (ha : WellRead a) (hb : WellRead b) :
    Script.compareVersions a b = some (compareVersions a b) := by
  rw [script_compareVersions ha.prerelease hb.prerelease, ← ha.parseCore_eq, ← hb.parseCore_eq,
    Update.compareVersions_eq, precedence, precedence]

/-! ## Versions put together -/

theorem splitVersion_of_prerelease {core : String} (h : '-' ∉ core.toList) (p : String) :
    splitVersion ("v" ++ (core ++ ("-" ++ p))) = (core, p) := by
  have hcut : cutAt '-' (core ++ ("-" ++ p)) = some (core, p) := cutAt_append h p
  rw [splitVersion, trimPrefix_append, hcut]

theorem splitVersion_of_core {core : String} (h : '-' ∉ core.toList) :
    splitVersion ("v" ++ core) = (core, "") := by
  rw [splitVersion, trimPrefix_append, cutAt_of_not_mem h]

/-- A core ends in front of the first hyphen. -/
theorem not_mem_core (v : String) : '-' ∉ (splitVersion v).1.toList := by
  unfold splitVersion
  dsimp only
  generalize trimPrefix v "v" = v
  unfold cutAt
  dsimp only
  split
  · rename_i core prerelease h
    split at h
    · cases h
    · rw [Option.some_inj, Prod.mk.injEq] at h
      rw [← h.1, String.toList_ofList]
      intro hmem
      simpa using List.mem_takeWhile_imp hmem
  · rename_i h
    split at h
    · rename_i hnil
      intro hmem
      simpa using List.dropWhile_eq_nil_iff.1 hnil _ hmem
    · cases h

/-- A part of a text has the characters of the text. -/
theorem subset_of_mem_cutParts {c : Char} {n : Nat} {s part : List Char}
    (h : part ∈ cutParts c n s) : part ⊆ s := by
  induction n generalizing s with
  | zero =>
    rw [cutParts, List.mem_singleton] at h
    rw [h]
    exact List.Subset.refl s
  | succ n ih =>
    unfold cutParts at h
    split at h
    · rw [List.mem_singleton] at h
      rw [h]
      exact List.Subset.refl s
    · rename_i d rest heq
      cases List.mem_cons.1 h with
      | inl h =>
        rw [h]
        exact List.takeWhile_subset _
      | inr h =>
        have hrest : rest ⊆ s := by
          intro x hx
          apply (List.dropWhile_suffix _).subset
          rw [heq]
          exact List.mem_cons_of_mem d hx
        exact fun x hx => hrest (ih h hx)

/-- Three parts without a dot between two dots. -/
theorem splitThree_of_dots {x y z : String} (hx : '.' ∉ x.toList) (hy : '.' ∉ y.toList) :
    splitThree (x ++ ("." ++ (y ++ ("." ++ z)))) '.' = [x, y, z] := by
  have hcut : ∀ (n : Nat) {l : List Char} (rest : List Char), '.' ∉ l →
      cutParts '.' (n + 1) (l ++ '.' :: rest) = l :: cutParts '.' n rest := by
    intro n l rest hl
    have hkeep : ∀ d ∈ l, (decide (d ≠ '.')) = true := by
      intro d hd
      rw [decide_eq_true_eq]
      rintro rfl
      exact hl hd
    rw [cutParts, List.takeWhile_append_of_pos hkeep, List.dropWhile_append_of_pos hkeep]
    simp
  have htext : (x ++ ("." ++ (y ++ ("." ++ z)))).toList =
      x.toList ++ '.' :: (y.toList ++ '.' :: z.toList) := by
    simp
  rw [splitThree, htext, hcut 1 _ hx, hcut 0 _ hy, cutParts]
  simp

/-- Identifiers with dots between them. -/
def joinIdentifiers (ids : List String) (last : String) : String :=
  ids.foldr (fun id rest => id ++ ("." ++ rest)) last

theorem split_joinIdentifiers {ids : List String} {last : String}
    (h : ∀ id ∈ ids, '.' ∉ id.toList) (hlast : '.' ∉ last.toList) :
    split (joinIdentifiers ids last) '.' = ids ++ [last] := by
  induction ids with
  | nil => simp [joinIdentifiers, split, splitChars_of_not_mem hlast]
  | cons id ids ih =>
    rw [List.forall_mem_cons] at h
    have htext : (joinIdentifiers (id :: ids) last).toList =
        id.toList ++ '.' :: (joinIdentifiers ids last).toList := by
      simp [joinIdentifiers]
    rw [split, htext, splitChars_append h.1, List.map_cons, String.ofList_toList]
    exact congrArg _ (ih h.2)

/-- What is joined has the characters of its identifiers. -/
theorem mem_joinIdentifiers {ids : List String} {last : String} {c : Char}
    (h : c ∈ (joinIdentifiers ids last).toList) :
    c = '.' ∨ c ∈ last.toList ∨ ∃ id ∈ ids, c ∈ id.toList := by
  induction ids with
  | nil => exact .inr (.inl h)
  | cons id ids ih =>
    have htext : (joinIdentifiers (id :: ids) last).toList =
        id.toList ++ '.' :: (joinIdentifiers ids last).toList := by
      simp [joinIdentifiers]
    rw [htext, List.mem_append, List.mem_cons] at h
    rcases h with h | h | h
    · exact .inr (.inr ⟨id, List.mem_cons_self, h⟩)
    · exact .inl h
    · rcases ih h with h | h | ⟨id', hid, h⟩
      · exact .inl h
      · exact .inr (.inl h)
      · exact .inr (.inr ⟨id', List.mem_cons_of_mem _ hid, h⟩)

/-! ## Cores in decimal -/

/-- Three numbers with dots between them. -/
def coreText (x y z : Nat) : String := x.repr ++ ("." ++ (y.repr ++ ("." ++ z.repr)))

theorem digits_repr (n : Nat) : ∀ c ∈ n.repr.toList, (digitVal c).isSome := by
  intro c hc
  rw [Nat.toList_repr] at hc
  have hdigit := Nat.isDigit_of_mem_toDigits (by decide) (by decide) hc
  rw [digitVal_isSome_iff]
  simp only [Char.isDigit, Bool.and_eq_true, decide_eq_true_eq] at hdigit
  exact hdigit

theorem repr_toList_ne_nil (n : Nat) : n.repr.toList ≠ [] := by
  rw [Nat.toList_repr]
  exact Nat.toDigits_ne_nil

theorem not_mem_repr (n : Nat) : '.' ∉ n.repr.toList ∧ '-' ∉ n.repr.toList :=
  ⟨fun h => (ne_of_digit (digits_repr n _ h)).2.2.2.1 rfl,
    fun h => (ne_of_digit (digits_repr n _ h)).2.1 rfl⟩

section

variable {n : Nat} (h : (n : Int) ≤ maxInt64)

include h

theorem atoi_repr : atoi n.repr = some (n : Int) := by
  have hval : decimalVal n.repr.toList = some n := by
    rw [Nat.toList_repr, decimalVal_toDigits]
  rw [atoi, parseInt_of_digits (repr_toList_ne_nil n) (digits_repr n) hval, if_pos h]

theorem int_repr : Script.int n.repr = some (n : Int) := by
  have hval : decimalVal n.repr.toList = some n := by
    rw [Nat.toList_repr, decimalVal_toDigits]
  have hlength : n.repr.length ≤ 19 := by
    rw [← String.length_toList, Nat.toList_repr, Nat.length_toDigits_le_iff (by decide) (by decide)]
    simp only [maxInt64] at h
    omega
  have hfits : ¬ Script.maxStrDigits < n.repr.length := by
    rw [Script.maxStrDigits]
    omega
  rw [int_of_digits (repr_toList_ne_nil n) (digits_repr n) hval, if_neg hfits]

end

/-- A number that fits in 64 bits, or none. -/
theorem exists_of_parsed (parsed : Option Nat) (err₁ err₂ : String) :
    ∃ n : Nat, (n : Int) ≤ maxInt64 ∧
      ((match parsed.map Int.ofNat with
        | none => Except.error err₁
        | some n => if minInt64 ≤ n ∧ n ≤ maxInt64 then .ok n else .error err₂ :
        Except String Int).toOption).getD 0 = n := by
  have hzero : ((0 : Nat) : Int) ≤ maxInt64 := by decide
  cases parsed with
  | none => exact ⟨0, hzero, rfl⟩
  | some n =>
    dsimp only [Option.map_some]
    split_ifs with hrange
    · exact ⟨n, hrange.2, rfl⟩
    · exact ⟨0, hzero, rfl⟩

/-- A number without a minus sign is not negative. -/
theorem exists_atoi {s : String} (h : '-' ∉ s.toList) :
    ∃ n : Nat, (n : Int) ≤ maxInt64 ∧ (atoi s).getD 0 = n := by
  unfold atoi parseInt
  split
  · exact exists_of_parsed _ _ _
  · rename_i cs hcs
    exact absurd (hcs ▸ List.mem_cons_self) h
  · exact exists_of_parsed _ _ _

/-- The numbers the updater reads of a core. -/
theorem exists_parseVersionCore (v : String) : ∃ x y z : Nat, (x : Int) ≤ maxInt64 ∧
    (y : Int) ≤ maxInt64 ∧ (z : Int) ≤ maxInt64 ∧
      parseVersionCore (splitVersion v).1 = [(x : Int), (y : Int), (z : Int)] := by
  have hpart : ∀ i : Nat, ∃ n : Nat, (n : Int) ≤ maxInt64 ∧
      (((splitThree (splitVersion v).1 '.')[i]?).bind atoi).getD 0 = n := by
    intro i
    cases hi : (splitThree (splitVersion v).1 '.')[i]? with
    | none => exact ⟨0, by decide, rfl⟩
    | some part =>
      apply exists_atoi
      intro hmem
      obtain ⟨cs, hcs, rfl⟩ := List.mem_map.1 (List.mem_of_getElem? hi)
      rw [String.toList_ofList] at hmem
      exact not_mem_core v (subset_of_mem_cutParts hcs hmem)
  obtain ⟨x, hx, hreadx⟩ := hpart 0
  obtain ⟨y, hy, hready⟩ := hpart 1
  obtain ⟨z, hz, hreadz⟩ := hpart 2
  refine ⟨x, y, z, hx, hy, hz, ?_⟩
  rw [parseVersionCore, readCore, ← hreadx, ← hready, ← hreadz]
  rfl

section

variable {x y z : Nat} (hx : (x : Int) ≤ maxInt64) (hy : (y : Int) ≤ maxInt64)
  (hz : (z : Int) ≤ maxInt64)

theorem splitThree_coreText (x y z : Nat) :
    splitThree (coreText x y z) '.' = [x.repr, y.repr, z.repr] :=
  splitThree_of_dots (not_mem_repr x).1 (not_mem_repr y).1

theorem mem_coreText {c : Char} (h : c ∈ (coreText x y z).toList) :
    c = '.' ∨ (digitVal c).isSome := by
  simp only [coreText, String.toList_append, List.mem_append] at h
  rcases h with h | h | h | h | h
  · exact .inr (digits_repr _ c h)
  · exact .inl (List.mem_singleton.1 h)
  · exact .inr (digits_repr _ c h)
  · exact .inl (List.mem_singleton.1 h)
  · exact .inr (digits_repr _ c h)

include hx hy hz

theorem parseVersionCore_coreText :
    parseVersionCore (coreText x y z) = [(x : Int), (y : Int), (z : Int)] := by
  rw [parseVersionCore, readCore, splitThree_coreText]
  simp [List.range_succ, atoi_repr hx, atoi_repr hy, atoi_repr hz]

theorem readAlike_coreText : ∀ part ∈ splitThree (coreText x y z) '.', ReadAlike part := by
  rw [← parseCore_eq_iff, parseVersionCore_coreText hx hy hz, Script.parseCore, readCore,
    splitThree_coreText]
  simp [List.range_succ, int_repr hx, int_repr hy, int_repr hz]

end

/-! ## Exactly the well read versions -/

/-- Text of ASCII characters. -/
def IsAscii (s : String) : Prop := ∀ c ∈ s.toList, c.toNat < 128

instance (s : String) : Decidable (IsAscii s) :=
  List.decidableBAll (fun c : Char => c.toNat < 128) s.toList

/-- The script answers what the updater does, on either side of another version. -/
def Agrees (a b : String) : Prop :=
  Script.compareVersions a b = some (compareVersions a b) ∧
    Script.compareVersions b a = some (compareVersions b a)

theorem prereleaseKey_empty : prereleaseKey "" = ⊤ := if_pos rfl

theorem numericIdentifier_nonneg {id : String} {n : Int} (h : numericIdentifier id = some n) :
    0 ≤ n := by
  unfold numericIdentifier at h
  split_ifs at h with hdigits
  obtain ⟨hne, hall⟩ := isSome_of_allDigits hdigits
  obtain ⟨m, hm⟩ := exists_decimalVal hne hall
  rw [parseInt_of_digits hne hall hm] at h
  split_ifs at h
  cases h
  exact Int.natCast_nonneg m

theorem identifierKey_zero_le (id : String) : identifierKey "0" ≤ identifierKey id := by
  have hzero : identifierKey "0" = Sum.inlₗ 0 := by
    rw [identifierKey, show numericIdentifier "0" = some 0 from by decide]
  rw [hzero, identifierKey]
  cases hid : numericIdentifier id with
  | none => exact (Sum.Lex.inl_lt_inr _ _).le
  | some n => exact Sum.Lex.inl_le_inl_iff.2 (numericIdentifier_nonneg hid)

/-- Nothing is below the number zero. -/
theorem prereleaseKey_zero_le (p : String) : prereleaseKey "0" ≤ prereleaseKey p := by
  have hzero : split "0" '.' = ["0"] := by decide
  by_cases hp : p = ""
  · rw [hp, prereleaseKey_empty]
    exact le_top
  · rw [prereleaseKey, prereleaseKey, if_neg (by decide), if_neg hp, hzero, WithTop.coe_le_coe]
    obtain ⟨id, ids, hids⟩ := List.exists_cons_of_ne_nil
      (show split p '.' ≠ [] from by simp [split, splitChars_ne_nil])
    rw [hids, List.map_cons, List.map_cons, List.map_nil, ← threeWay_nonpos_iff, threeWay_cons]
    split_ifs with hne
    · exact threeWay_nonpos_iff.2 (identifierKey_zero_le id)
    · cases ids with
      | nil => simp
      | cons id' ids => simp

section

variable {a : String}

/-- A core the script reads as other numbers is ordered otherwise behind the updater's numbers,
or behind them and the lowest prerelease. -/
theorem parseCore_eq_of_agrees
    (h : ∀ b, IsAscii b → WellRead b → Script.compareVersions a b = some (compareVersions a b)) :
    parseVersionCore (splitVersion a).1 = Script.parseCore (splitVersion a).1 := by
  by_contra hne
  obtain ⟨x, y, z, hx, hy, hz, hcore⟩ := exists_parseVersionCore a
  have hhyphen : '-' ∉ (coreText x y z).toList := by
    intro hmem
    rcases mem_coreText hmem with hdot | hdigit
    · cases hdot
    · exact (ne_of_digit hdigit).2.1 rfl
  have hascii : ∀ c ∈ (coreText x y z).toList, c.toNat < 128 := by
    intro c hc
    rcases mem_coreText hc with rfl | hdigit
    · decide
    · have hhigh : c.toNat ≤ 57 := ((digitVal_isSome_iff c).1 hdigit).2
      omega
  have hread := readAlike_coreText hx hy hz
  -- both sides of such a version differ only in what is behind the core
  have hbehind : ∀ b p, splitVersion b = (coreText x y z, p) → Fits p → IsAscii b →
      threeWay (Script.parseCore (splitVersion a).1) [(x : Int), (y : Int), (z : Int)] =
        threeWay (prereleaseKey (splitVersion a).2) (prereleaseKey p) := by
    intro b p hb hp hba
    have hcoreb : Script.parseCore (splitVersion b).1 = [(x : Int), (y : Int), (z : Int)] := by
      rw [hb, ← (parseCore_eq_iff _).2 hread, parseVersionCore_coreText hx hy hz]
    have hdiffers : Script.parseCore (splitVersion a).1 ≠ Script.parseCore (splitVersion b).1 := by
      rw [hcoreb, ← hcore]
      exact Ne.symm hne
    have heq := h b hba ⟨by rwa [hb], by rwa [hb]⟩
    rw [script_compareVersions_of_ne hdiffers, hcoreb, Option.some_inj, compareVersions_eq,
      precedence, precedence, hb, hcore, parseVersionCore_coreText hx hy hz, threeWay_toLex,
      threeWay_self, if_neg (not_not.2 rfl)] at heq
    exact heq
  have hle : Script.parseCore (splitVersion a).1 ≤ [(x : Int), (y : Int), (z : Int)] := by
    rw [← threeWay_nonpos_iff,
      hbehind ("v" ++ coreText x y z) "" (splitVersion_of_core hhyphen) (by decide) ?_,
      threeWay_nonpos_iff, prereleaseKey_empty]
    · exact le_top
    · intro c hc
      rw [String.toList_append, List.mem_append] at hc
      rcases hc with hc | hc
      · obtain rfl := List.mem_singleton.1 hc
        decide
      · exact hascii c hc
  have hge : [(x : Int), (y : Int), (z : Int)] ≤ Script.parseCore (splitVersion a).1 := by
    rw [← threeWay_nonneg_iff,
      hbehind ("v" ++ (coreText x y z ++ ("-" ++ "0"))) "0" (splitVersion_of_prerelease hhyphen "0")
        (by decide) ?_, threeWay_nonneg_iff]
    · exact prereleaseKey_zero_le _
    · intro c hc
      simp only [String.toList_append, List.mem_append] at hc
      rcases hc with hc | hc | hc | hc
      · obtain rfl := List.mem_singleton.1 hc
        decide
      · exact hascii c hc
      · obtain rfl := List.mem_singleton.1 hc
        decide
      · obtain rfl := List.mem_singleton.1 hc
        decide
  apply hne
  rw [hcore]
  exact le_antisymm hge hle

omit a in
/-- A version has the characters of its core and of its prerelease. -/
theorem mem_of_mem_splitVersion {v : String} {c : Char}
    (h : c ∈ (splitVersion v).1.toList ∨ c ∈ (splitVersion v).2.toList) : c ∈ v.toList := by
  have htrim : ∀ c ∈ (trimPrefix v "v").toList, c ∈ v.toList := by
    intro c hc
    unfold trimPrefix cutPrefix at hc
    split_ifs at hc
    · rw [Option.getD_some, String.toList_ofList] at hc
      exact List.mem_of_mem_drop hc
    · exact hc
  apply htrim
  unfold splitVersion cutAt at h
  dsimp only at h
  generalize (trimPrefix v "v") = v at h ⊢
  split at h
  · rename_i core prerelease hcut
    split at hcut
    · cases hcut
    · rename_i d after hdrop
      rw [Option.some_inj, Prod.mk.injEq] at hcut
      rw [← hcut.1, ← hcut.2, String.toList_ofList, String.toList_ofList] at h
      cases h with
      | inl h => exact List.takeWhile_subset _ h
      | inr h =>
        apply (List.dropWhile_suffix _).subset
        rw [hdrop]
        exact List.mem_cons_of_mem d h
  · cases h with
    | inl h => exact h
    | inr h => simp at h

/-- A number that is too long stops the script where a shorter one stands in its place. -/
theorem fits_of_agrees (hascii : IsAscii a)
    (h : ∀ b, IsAscii b → WellRead b → Script.compareVersions a b = some (compareVersions a b)) :
    Fits (splitVersion a).2 := by
  by_contra hlong
  obtain ⟨id, hid, hidlong⟩ : ∃ id ∈ split (splitVersion a).2 '.', tooLong id = true := by
    simpa [Fits] using hlong
  obtain ⟨long, hfind⟩ := Option.isSome_iff_exists.1 (List.find?_isSome.2 ⟨id, hid, hidlong⟩)
  obtain ⟨hlong, shared, later, hids, hshared⟩ := List.find?_eq_some_iff_append.1 hfind
  have hshared : ∀ id ∈ shared, tooLong id = false := by
    intro id hid
    simpa using hshared id hid
  have hmem : ∀ id ∈ shared, id.toList ∈ splitChars '.' (splitVersion a).2.toList := by
    intro id hid
    have hin : id ∈ split (splitVersion a).2 '.' := by
      rw [hids]
      exact List.mem_append_left _ hid
    obtain ⟨cs, hcs, rfl⟩ := List.mem_map.1 hin
    rwa [String.toList_ofList]
  have hsplit : split (joinIdentifiers shared "0") '.' = shared ++ ["0"] :=
    split_joinIdentifiers (fun id hid => not_mem_of_mem_splitChars (hmem id hid)) (by decide)
  have hb := splitVersion_of_prerelease (not_mem_core a) (joinIdentifiers shared "0")
  set b := "v" ++ ((splitVersion a).1 ++ ("-" ++ joinIdentifiers shared "0")) with hbdef
  have hfits : Fits (splitVersion b).2 := by
    rw [hb, Fits, hsplit]
    intro id hid
    cases List.mem_append.1 hid with
    | inl hid => exact hshared id hid
    | inr hid =>
      rw [List.mem_singleton] at hid
      rw [hid]
      decide
  have hread : ∀ part ∈ splitThree (splitVersion b).1 '.', ReadAlike part := by
    rw [hb, ← parseCore_eq_iff]
    exact parseCore_eq_of_agrees h
  have hbascii : IsAscii b := by
    intro c hc
    simp only [hbdef, String.toList_append, List.mem_append] at hc
    rcases hc with hc | hc | hc | hc
    · obtain rfl := List.mem_singleton.1 hc
      decide
    · exact hascii c (mem_of_mem_splitVersion (.inl hc))
    · obtain rfl := List.mem_singleton.1 hc
      decide
    · rcases mem_joinIdentifiers hc with rfl | hc | ⟨id, hid, hc⟩
      · decide
      · obtain rfl := List.mem_singleton.1 hc
        decide
      · exact hascii c (mem_of_mem_splitVersion (.inr (subset_of_mem_splitChars (hmem id hid) hc)))
  have hpreA : (splitVersion a).2 ≠ "" := by
    intro hempty
    rw [hempty] at hid
    rw [List.mem_singleton.1 hid] at hidlong
    revert hidlong
    decide
  have hpreB : (splitVersion b).2 ≠ "" := by
    intro hempty
    have hlast := hsplit
    rw [hb] at hempty
    dsimp only at hempty
    rw [hempty] at hlast
    have hmem : "0" ∈ split "" '.' := by
      rw [hlast]
      simp
    revert hmem
    decide
  have hcores : compareCores (Script.parseCore (splitVersion a).1)
      (Script.parseCore (splitVersion b).1) = 0 := by
    rw [hb, compareCores_eq rfl, threeWay_self]
  have hstops : Script.compareVersions a b = none := by
    unfold Script.compareVersions
    dsimp only
    rw [hcores, if_neg (not_not.2 rfl), if_neg fun h => hpreA h.1, if_neg hpreA, if_neg hpreB, hb,
      Script.comparePrerelease, hids, hsplit]
    exact script_compareIdentifiers_of_tooLong hshared hlong
  rw [h b hbascii ⟨hread, hfits⟩] at hstops
  cases hstops

end

/-- Versions are in a preorder, so that neither the choice between two releases nor the
offers come back to where they started. The script answers what the updater answers against
every version it reads alike exactly for the versions it reads alike itself: the core in the
same numbers, and no number of more digits than it takes. -/
theorem versions_ordered (a : String) :
    compareVersions a a = 0 ∧
      (∀ b, compareVersions b a = -compareVersions a b) ∧
      (∀ b c, compareVersions a b ≤ 0 → compareVersions b c ≤ 0 → compareVersions a c ≤ 0) ∧
      (∀ stable snap c : Candidate,
        resolveCandidate (.ok (some stable)) (.ok (some snap)) "snapshot" = .ok (some c) →
          0 ≤ compareVersions c.version stable.version ∧
            0 ≤ compareVersions c.version snap.version) ∧
      ¬ Relation.TransGen Offered a a ∧
      (IsAscii a → ((∀ b, IsAscii b → WellRead b → Agrees a b) ↔ WellRead a)) := by
  refine ⟨?_, ?_, ?_, fun _ _ _ => le_resolveCandidate, ?_, ?_⟩
  · rw [compareVersions_eq, threeWay_self]
  · intro b
    rw [compareVersions_eq, compareVersions_eq, threeWay_swap]
  · intro b c hab hbc
    rw [compareVersions_eq, threeWay_nonpos_iff] at hab hbc ⊢
    exact hab.trans hbc
  · intro h
    exact lt_irrefl _ (precedence_lt_of_offers h)
  · intro hascii
    constructor
    · intro h
      exact ⟨(parseCore_eq_iff _).1 (parseCore_eq_of_agrees fun b hb hread => (h b hb hread).1),
        fits_of_agrees hascii fun b hb hread => (h b hb hread).1⟩
    · intro ha b _ hb
      exact ⟨ha.compareVersions_eq hb, hb.compareVersions_eq ha⟩

/-- A snapshot and a release the script reads as the updater does. -/
theorem versions_ordered_snapshot :
    Script.compareVersions "0.2.0-snapshot.202608290400.abc1234" "v0.2.0-alpha.1" =
      some (compareVersions "0.2.0-snapshot.202608290400.abc1234" "v0.2.0-alpha.1") :=
  (((versions_ordered "0.2.0-snapshot.202608290400.abc1234").2.2.2.2.2 (by decide +kernel)).2
    ⟨by decide +kernel, by decide +kernel⟩ "v0.2.0-alpha.1" (by decide +kernel)
    ⟨by decide +kernel, by decide +kernel⟩).1

/-- A number past `int64` is zero to the updater, and itself to the script. -/
theorem not_mirrored : ¬ ∀ a b, IsAscii a → IsAscii b →
    Script.compareVersions a b = some (compareVersions a b) := by
  intro h
  have hpair := h "9223372036854775808.0.0" "1.0.0" (by decide +kernel) (by decide +kernel)
  revert hpair
  decide +kernel

end Konnekt.Update
