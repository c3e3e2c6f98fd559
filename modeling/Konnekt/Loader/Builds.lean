import Konnekt.Go.Order
import Konnekt.Server.Configs
import Mathlib.Data.List.Sort
import Mathlib.Data.String.Basic

/-!
# The builds of a loader

The versions of the feed become builds, sorted newest first, of which one is recommended
for each Minecraft version. Two versions are compared by their numbers, a missing one
below every other, then a release against a prerelease and last as text, so that only the
same text compares as equal.
-/

namespace Konnekt.Loader

open Go Server

/-! ## Comparing versions -/

/-- A list continued with one value. -/
def padded {α : Type*} (a : α) (as : List α) : ℕ → α := fun n => as.getD n a

/-- `splitNeoForgeVersion`: the numbers of a build, and whether it is a prerelease. -/
def splitNeoForgeVersion (version : String) : List Int × Bool :=
  let (base, pre) := match cutAt '-' version with
    | some (base, _) => (base, true)
    | none => (version, false)
  ((split base '.').map fun f => (atoi f).getD (-1), pre)

/-- The sign of the first two numbers that differ, a missing one counting as -1. -/
def compareNumbers : List Int → List Int → Int
  | [], [] => 0
  | a :: as, [] => if a ≠ -1 then if a > -1 then 1 else -1 else compareNumbers as []
  | [], b :: bs => if -1 ≠ b then if -1 > b then 1 else -1 else compareNumbers [] bs
  | a :: as, b :: bs => if a ≠ b then if a > b then 1 else -1 else compareNumbers as bs

/-- `compareNeoForgeVersions`. -/
def compareNeoForgeVersions (a b : String) : Int :=
  let (aNums, aPre) := splitNeoForgeVersion a
  let (bNums, bPre) := splitNeoForgeVersion b
  let c := compareNumbers aNums bNums
  if c ≠ 0 then c
  else if aPre = bPre then threeWay a b
  else if aPre then -1
  else 1

/-- The key of a version: its numbers, whether it is a release, and its text. -/
noncomputable def versionKey (version : String) : Lex (ℕ → ℤ) ×ₗ Bool ×ₗ String :=
  toLex (toLex (padded (-1) (splitNeoForgeVersion version).1),
    toLex (!(splitNeoForgeVersion version).2, version))

theorem versionKey_injective : Function.Injective versionKey := fun _ _ h =>
  congrArg (fun k => (ofLex (ofLex k).2).2) h

/-- The first two values decide, and if they are the same the rest. -/
theorem ite_ne_eq_threeWay (a b rest : Int) :
    (if a ≠ b then if a > b then 1 else -1 else rest) =
      if threeWay a b ≠ 0 then threeWay a b else rest := by
  rcases lt_trichotomy a b with h | rfl | h
  · rw [threeWay_of_lt h, if_pos h.ne, if_neg h.not_gt]
    rfl
  · simp
  · rw [threeWay_of_gt h, if_pos h.ne', if_pos h]
    rfl

theorem compareNumbers_eq (as bs : List Int) :
    compareNumbers as bs = threeWay (toLex (padded (-1) as)) (toLex (padded (-1) bs)) := by
  induction as generalizing bs with
  | nil =>
    induction bs with
    | nil => rw [threeWay_self, compareNumbers]
    | cons b bs ih =>
      rw [threeWay_lex, compareNumbers, ite_ne_eq_threeWay, ih]
      rfl
  | cons a as ih =>
    cases bs with
    | nil =>
      rw [threeWay_lex, compareNumbers, ite_ne_eq_threeWay, ih]
      rfl
    | cons b bs =>
      rw [threeWay_lex, compareNumbers, ite_ne_eq_threeWay, ih]
      rfl

theorem compareNeoForgeVersions_eq (a b : String) :
    compareNeoForgeVersions a b = threeWay (versionKey a) (versionKey b) := by
  unfold compareNeoForgeVersions versionKey
  rw [threeWay_toLex, threeWay_toLex, ← compareNumbers_eq]
  generalize splitNeoForgeVersion a = x
  generalize splitNeoForgeVersion b = y
  obtain ⟨aNums, aPre⟩ := x
  obtain ⟨bNums, bPre⟩ := y
  have hrelease : threeWay true false = 1 := by decide
  have hprerelease : threeWay false true = -1 := by decide
  cases aPre <;> cases bPre <;> simp [hrelease, hprerelease]

/-- The comparison orders all texts, malformed ones too. -/
theorem totalComparison_compareNeoForgeVersions : TotalComparison compareNeoForgeVersions :=
  .of_key versionKey versionKey_injective compareNeoForgeVersions_eq

/-! ## The builds -/

/-- `models.LoaderVersion`. -/
structure LoaderVersion where
  version : String
  mcVersion : String
  stable : Bool
  latest : Bool := false
  deriving DecidableEq, Repr

/-- `isPrerelease`. -/
def isPrerelease (version : String) : Bool := version.toList.contains '-'

/-- The build a text of the feed is, for the Minecraft version asked for; empty asks for all. -/
def loaderVersion (mcVersion raw : String) : Option LoaderVersion :=
  let v := trimSpace raw
  if v = "" then none
  else
    let mc := mcVersionForNeoForge v
    if mcVersion ≠ "" ∧ mc ≠ mcVersion then none
    else some { version := v, mcVersion := mc, stable := !isPrerelease v }

/-- One build may stand before another: the other is not the newer one. -/
def NotOlder (u v : LoaderVersion) : Prop := compareNeoForgeVersions v.version u.version ≤ 0

instance : DecidableRel NotOlder := fun _ _ => inferInstanceAs (Decidable (_ ≤ _))

/-- The entry that is recommended for a Minecraft version: the first stable one, or the first. -/
def recommendedIndex (versions : List LoaderVersion) (mc : String) : Option Nat :=
  (versions.findIdx? fun v => v.mcVersion = mc && v.stable).or
    (versions.findIdx? fun v => v.mcVersion = mc)

/-- `markLatestPerMCVersion`. -/
def markLatestPerMCVersion (versions : List LoaderVersion) : List LoaderVersion :=
  versions.mapIdx fun i v =>
    if recommendedIndex versions v.mcVersion = some i then { v with latest := true } else v

/-- `buildLoaderVersions`. -/
def buildLoaderVersions (raw : List String) (mcVersion : String) : List LoaderVersion :=
  markLatestPerMCVersion ((raw.filterMap (loaderVersion mcVersion)).insertionSort NotOlder)

/-! ## The recommended build -/

/-- Among these builds one is the greatest stable one of its Minecraft version, or the greatest
of a version without stable ones. -/
structure Recommended (builds : List LoaderVersion) (v : LoaderVersion) : Prop where
  stable : v.stable = true ∨ ∀ u ∈ builds, u.mcVersion = v.mcVersion → u.stable = false
  greatest : ∀ u ∈ builds, u.mcVersion = v.mcVersion → u.stable = v.stable → NotOlder v u

instance : Std.Total NotOlder where
  total u v := by
    have hswap := totalComparison_compareNeoForgeVersions.swap u.version v.version
    unfold NotOlder
    omega

instance : IsTrans LoaderVersion NotOlder where
  trans _ _ _ huv hvw := totalComparison_compareNeoForgeVersions.trans _ _ _ hvw huv

theorem notOlder_refl (v : LoaderVersion) : NotOlder v v :=
  (totalComparison_compareNeoForgeVersions.refl v.version).le

/-- A build of the feed is what its version makes it. -/
theorem eq_of_loaderVersion {mcVersion raw raw' : String} {u v : LoaderVersion}
    (hu : loaderVersion mcVersion raw = some u) (hv : loaderVersion mcVersion raw' = some v)
    (h : u.version = v.version) : u = v := by
  unfold loaderVersion at hu hv
  dsimp only at hu hv
  split at hu
  · cases hu
  · split at hu
    · cases hu
    · split at hv
      · cases hv
      · split at hv
        · cases hv
        · cases hu
          cases hv
          dsimp only at h
          rw [h]

/-- The order of the feed does not matter to the sorted builds. -/
theorem insertionSort_eq_of_perm {mcVersion : String} {raw raw' : List String}
    (hperm : raw'.Perm raw) :
    (raw'.filterMap (loaderVersion mcVersion)).insertionSort NotOlder =
      (raw.filterMap (loaderVersion mcVersion)).insertionSort NotOlder := by
  have hsame := ((List.perm_insertionSort NotOlder _).trans (hperm.filterMap _)).trans
    (List.perm_insertionSort NotOlder (raw.filterMap (loaderVersion mcVersion))).symm
  refine hsame.eq_of_pairwise ?_ (List.pairwise_insertionSort _ _) (List.pairwise_insertionSort _ _)
  intro u v hu hv huv hvu
  rw [List.mem_insertionSort, List.mem_filterMap] at hu hv
  obtain ⟨t, -, hu⟩ := hu
  obtain ⟨t', -, hv⟩ := hv
  have hswap := totalComparison_compareNeoForgeVersions.swap u.version v.version
  unfold NotOlder at huv hvu
  exact eq_of_loaderVersion hu hv
    (totalComparison_compareNeoForgeVersions.eq_of_eq_zero _ _ (by omega))

section

variable {builds : List LoaderVersion} {mc : String} {i : Nat} {v : LoaderVersion}

theorem getElem?_markLatestPerMCVersion (builds : List LoaderVersion) (i : Nat) :
    (markLatestPerMCVersion builds)[i]? = builds[i]?.map fun v =>
      if recommendedIndex builds v.mcVersion = some i then { v with latest := true } else v := by
  rw [markLatestPerMCVersion, List.getElem?_mapIdx]

/-- Builds that are not marked yet. -/
def Unmarked (builds : List LoaderVersion) : Prop := ∀ v ∈ builds, v.latest = false

/-- The first build of a kind, newest first, is not older than any other of the kind. -/
theorem notOlder_of_findIdx? {p : LoaderVersion → Bool} (hsorted : builds.Pairwise NotOlder)
    (hfind : builds.findIdx? p = some i) :
    ∃ v, builds[i]? = some v ∧ p v = true ∧ ∀ u ∈ builds, p u = true → NotOlder v u := by
  obtain ⟨hlt, hp, hbefore⟩ := List.findIdx?_eq_some_iff_getElem.1 hfind
  refine ⟨builds[i], List.getElem?_eq_getElem hlt, hp, ?_⟩
  intro u hu hpu
  obtain ⟨j, hj, rfl⟩ := List.mem_iff_getElem.1 hu
  rcases lt_trichotomy i j with h | rfl | h
  · exact List.pairwise_iff_getElem.1 hsorted i j hlt hj h
  · exact notOlder_refl _
  · exact absurd hpu (hbefore j h)

/-- Each Minecraft version of the builds has a recommended one. -/
theorem exists_recommendedIndex (hsorted : builds.Pairwise NotOlder)
    (h : ∃ v ∈ builds, v.mcVersion = mc) : ∃ i v, recommendedIndex builds mc = some i ∧
      builds[i]? = some v ∧ v.mcVersion = mc ∧ Recommended builds v := by
  unfold recommendedIndex
  cases hstable : builds.findIdx? fun v => v.mcVersion = mc && v.stable with
  | some i =>
    obtain ⟨v, hv, hp, hgreatest⟩ := notOlder_of_findIdx? hsorted hstable
    simp only [Bool.and_eq_true, decide_eq_true_eq] at hp hgreatest
    refine ⟨i, v, rfl, hv, hp.1, .inl hp.2, ?_⟩
    intro u hu hmc hsame
    exact hgreatest u hu ⟨hmc.trans hp.1, hsame.trans hp.2⟩
  | none =>
    rw [List.findIdx?_eq_none_iff] at hstable
    have hnone : ∀ u ∈ builds, u.mcVersion = mc → u.stable = false := by
      intro u hu hmc
      simpa [hmc] using hstable u hu
    cases hany : builds.findIdx? fun v => v.mcVersion = mc with
    | none =>
      rw [List.findIdx?_eq_none_iff] at hany
      obtain ⟨v, hv, hmc⟩ := h
      exact absurd hmc (by simpa using hany v hv)
    | some i =>
      obtain ⟨v, hv, hp, hgreatest⟩ := notOlder_of_findIdx? hsorted hany
      simp only [decide_eq_true_eq] at hp hgreatest
      refine ⟨i, v, rfl, hv, hp, .inr fun u hu hmc => hnone u hu (hmc.trans hp), ?_⟩
      intro u hu hmc _
      exact hgreatest u hu (hmc.trans hp)

/-- Marking a build keeps what it is compared by. -/
theorem exists_of_marked {u : LoaderVersion} (h : (markLatestPerMCVersion builds)[i]? = some u) :
    ∃ v, builds[i]? = some v ∧ u.version = v.version ∧ u.mcVersion = v.mcVersion ∧
      u.stable = v.stable ∧
      (u.latest = true ↔ v.latest = true ∨ recommendedIndex builds v.mcVersion = some i) := by
  rw [getElem?_markLatestPerMCVersion, Option.map_eq_some_iff] at h
  obtain ⟨v, hv, rfl⟩ := h
  refine ⟨v, hv, ?_⟩
  split
  · next hi => exact ⟨rfl, rfl, rfl, by simp [hi]⟩
  · next hi => exact ⟨rfl, rfl, rfl, by simp [hi]⟩

theorem pairwise_markLatestPerMCVersion (hsorted : builds.Pairwise NotOlder) :
    (markLatestPerMCVersion builds).Pairwise NotOlder := by
  rw [List.pairwise_iff_getElem] at hsorted ⊢
  intro i j hi hj hij
  obtain ⟨v, hv, hversion, -⟩ := exists_of_marked (List.getElem?_eq_getElem hi)
  obtain ⟨w, hw, hversion', -⟩ := exists_of_marked (List.getElem?_eq_getElem hj)
  obtain ⟨hi', rfl⟩ := List.getElem?_eq_some_iff.1 hv
  obtain ⟨hj', rfl⟩ := List.getElem?_eq_some_iff.1 hw
  unfold NotOlder
  rw [hversion, hversion']
  exact hsorted i j hi' hj' hij

/-- Of each Minecraft version one entry is marked, which is the recommended build. -/
theorem exists_latest (hsorted : builds.Pairwise NotOlder) (hunmarked : Unmarked builds)
    (h : ∃ v ∈ markLatestPerMCVersion builds, v.mcVersion = mc) :
    ∃ (i : Nat) (v : LoaderVersion), (markLatestPerMCVersion builds)[i]? = some v ∧
      v.mcVersion = mc ∧ v.latest = true ∧
      Recommended (markLatestPerMCVersion builds) v ∧
      ∀ (j : Nat) (u : LoaderVersion), (markLatestPerMCVersion builds)[j]? = some u →
        u.mcVersion = mc → u.latest = true → j = i := by
  have hmem : ∃ v ∈ builds, v.mcVersion = mc := by
    obtain ⟨v, hv, rfl⟩ := h
    obtain ⟨i, hi⟩ := List.mem_iff_getElem?.1 hv
    obtain ⟨w, hw, -, hmc, -⟩ := exists_of_marked hi
    exact ⟨w, List.mem_of_getElem? hw, hmc.symm⟩
  obtain ⟨i, v, hi, hv, rfl, hrecommended⟩ := exists_recommendedIndex hsorted hmem
  have hmarked : (markLatestPerMCVersion builds)[i]? = some { v with latest := true } := by
    rw [getElem?_markLatestPerMCVersion, hv, Option.map_some, if_pos hi]
  refine ⟨i, _, hmarked, rfl, rfl, ⟨?_, ?_⟩, ?_⟩
  · refine hrecommended.stable.imp_right fun hnone u hu hmc => ?_
    obtain ⟨j, hj⟩ := List.mem_iff_getElem?.1 hu
    obtain ⟨w, hw, -, hmc', hstable, -⟩ := exists_of_marked hj
    rw [hstable]
    exact hnone w (List.mem_of_getElem? hw) (hmc'.symm.trans hmc)
  · intro u hu hmc hstable
    obtain ⟨j, hj⟩ := List.mem_iff_getElem?.1 hu
    obtain ⟨w, hw, hversion, hmc', hstable', -⟩ := exists_of_marked hj
    have hgreatest := hrecommended.greatest w (List.mem_of_getElem? hw) (hmc'.symm.trans hmc)
      (hstable'.symm.trans hstable)
    unfold NotOlder at hgreatest ⊢
    rwa [hversion]
  · intro j u hj hmc hlatest
    obtain ⟨w, hw, -, hmc', -, hiff⟩ := exists_of_marked hj
    rcases hiff.1 hlatest with hold | hindex
    · rw [hunmarked w (List.mem_of_getElem? hw)] at hold
      cases hold
    · have hsame : recommendedIndex builds v.mcVersion = some j := by
        rw [← hmc, hmc']
        exact hindex
      exact Option.some.inj (hsame.symm.trans hi)

end

theorem unmarked_sorted (raw : List String) (mcVersion : String) :
    Unmarked ((raw.filterMap (loaderVersion mcVersion)).insertionSort NotOlder) := by
  intro v hv
  rw [List.mem_insertionSort, List.mem_filterMap] at hv
  obtain ⟨t, -, ht⟩ := hv
  unfold loaderVersion at ht
  dsimp only at ht
  split at ht
  · cases ht
  · split at ht
    · cases ht
    · cases ht
      rfl

end Konnekt.Loader
