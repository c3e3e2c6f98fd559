import Konnekt.Snapshots.Index

/-!
# Copying a level in ranges

The ranges of an assembled file tile it, so that a level copied in them is the level
built from its parts. They are fewer than the parts as a rule, but not always: a level
of very large parts has more ranges than one upload may have.
-/

namespace Konnekt.Snapshots

open Go

/-! ## Ranges -/

/-- Ranges of a length that tile a size: in order, disjoint, all of the length but the last, and
together all of it. -/
structure Tiles (length : Int) (first size : Int) (ranges : List (Int × Int)) : Prop where
  inside : ∀ r ∈ ranges, first ≤ r.1 ∧ r.1 ≤ r.2 ∧ r.2 < size
  inOrder : ranges.Pairwise fun r s => r.2 < s.1
  equal : ∀ r ∈ ranges.dropLast, r.2 - r.1 + 1 = length
  covers : ∀ p, first ≤ p → p < size → ∃ r ∈ ranges, r.1 ≤ p ∧ p ≤ r.2

theorem dhCopyRangeBytes_pos : 0 < dhCopyRangeBytes := by decide

theorem copyRanges_of_lt {size first : Int} (h : first < size) : copyRanges size first =
    (first, min (first + dhCopyRangeBytes) size - 1) ::
      copyRanges size (first + dhCopyRangeBytes) := by
  rw [copyRanges, if_pos h]

theorem copyRanges_of_le {size first : Int} (h : size ≤ first) : copyRanges size first = [] := by
  rw [copyRanges, if_neg (not_lt.2 h)]

theorem tiles_copyRanges (size first : Int) :
    Tiles dhCopyRangeBytes first size (copyRanges size first) := by
  have hpos := dhCopyRangeBytes_pos
  fun_induction copyRanges size first with
  | case1 first hlt ih =>
    refine ⟨?_, ?_, ?_, ?_⟩
    · intro r hr
      rcases List.mem_cons.1 hr with rfl | hr
      · dsimp only
        omega
      · have hin := ih.inside r hr
        omega
    · refine List.pairwise_cons.2 ⟨fun r hr => ?_, ih.inOrder⟩
      have hin := ih.inside r hr
      dsimp only
      omega
    · intro r hr
      by_cases hend : size ≤ first + dhCopyRangeBytes
      · rw [copyRanges_of_le hend] at hr
        cases hr
      · have hmore : copyRanges size (first + dhCopyRangeBytes) ≠ [] := by
          rw [copyRanges_of_lt (not_le.1 hend)]
          exact List.cons_ne_nil _ _
        rw [List.dropLast_cons_of_ne_nil hmore] at hr
        rcases List.mem_cons.1 hr with rfl | hr
        · dsimp only
          omega
        · exact ih.equal r hr
    · intro p hfirst hp
      by_cases hhere : p < first + dhCopyRangeBytes
      · refine ⟨_, List.mem_cons_self, hfirst, ?_⟩
        dsimp only
        omega
      · obtain ⟨r, hr, hcover⟩ := ih.covers p (not_lt.1 hhere) hp
        exact ⟨r, List.mem_cons_of_mem _ hr, hcover⟩
  | case2 first hge =>
    refine ⟨nofun, .nil, nofun, fun p hfirst hp => ?_⟩
    omega

theorem length_copyRanges_le (size first : Int) (k : Nat) :
    (copyRanges size first).length ≤ k ↔ size ≤ first + k * dhCopyRangeBytes := by
  have hpos := dhCopyRangeBytes_pos
  fun_induction copyRanges size first generalizing k with
  | case1 first hlt ih =>
    cases k with
    | zero =>
      rw [List.length_cons, Nat.le_zero]
      simp [hlt]
    | succ k =>
      rw [List.length_cons, Nat.add_le_add_iff_right]
      refine (ih k).trans ?_
      rw [Nat.cast_succ, add_one_mul, add_assoc, add_comm dhCopyRangeBytes]
  | case2 first hge =>
    have hnonneg : 0 ≤ k * dhCopyRangeBytes := by positivity
    simp only [List.length_nil, Nat.zero_le, true_iff]
    omega

/-! ## The file -/

variable {objects : GoMap (List UInt8)} {keys : SnapshotKeys} {l : DHIndexLevel} {src : String}

/-- Ranges copied from a first byte on give the rest of the file. -/
theorem mapM_copied_ranges {data : List UInt8} (hsrc : objects.lookup src = some data) {first : Int}
    (hfirst : 0 ≤ first) : ∃ pieces,
    ((copyRanges data.length first).map fun range => ⟨src, some range⟩).mapM
      (DHCopyStep.copied objects) = some pieces ∧ pieces.flatten = data.drop first.toNat := by
  have hpos := dhCopyRangeBytes_pos
  generalize hsize : (data.length : Int) = size
  fun_induction copyRanges size first with
  | case1 first hlt ih =>
    obtain ⟨pieces, hmapM, hflatten⟩ := ih (by omega)
    have hcopied : DHCopyStep.copied objects
        ⟨src, some (first, min (first + dhCopyRangeBytes) size - 1)⟩ =
        some ((data.drop first.toNat).take
          (min (first + dhCopyRangeBytes) size - 1 - first + 1).toNat) := by
      rw [DHCopyStep.copied, hsrc]
      dsimp only
      rw [if_pos (by omega)]
    refine ⟨(data.drop first.toNat).take
      (min (first + dhCopyRangeBytes) size - 1 - first + 1).toNat :: pieces, ?_, ?_⟩
    · rw [List.map_cons, List.mapM_cons, hcopied, hmapM]
      rfl
    · rw [List.flatten_cons, hflatten]
      by_cases hend : first + dhCopyRangeBytes ≤ size
      · have htake : (min (first + dhCopyRangeBytes) size - 1 - first + 1).toNat =
            dhCopyRangeBytes.toNat := by omega
        have hnext : (first + dhCopyRangeBytes).toNat = first.toNat + dhCopyRangeBytes.toNat := by
          omega
        rw [htake, hnext, ← List.drop_drop, List.take_append_drop]
      · have hnil : data.drop (first + dhCopyRangeBytes).toNat = [] :=
          List.drop_eq_nil_of_le (by omega)
        rw [hnil, List.append_nil, List.take_of_length_le]
        rw [List.length_drop]
        omega
  | case2 first hge =>
    refine ⟨[], rfl, ?_⟩
    rw [List.drop_eq_nil_of_le (by omega)]
    rfl

/-- The bucket has the parts of a level, with these bytes. -/
def Held (objects : GoMap (List UInt8)) (keys : SnapshotKeys) (l : DHIndexLevel)
    (datas : List (List UInt8)) : Prop :=
  List.Forall₂ (fun part data => objects.lookup (keys.partKey part.sha256) = some data ∧
    (data.length : Int) = part.size) l.parts datas

theorem builtFrom_parts {datas : List (List UInt8)} (h : Held objects keys l datas) :
    builtFrom objects (partCopySteps keys l) = some datas.flatten := by
  have hmapM : (partCopySteps keys l).mapM (DHCopyStep.copied objects) = some datas := by
    unfold partCopySteps
    unfold Held at h
    generalize l.parts = parts at h
    induction h with
    | nil => rfl
    | cons hpart _ ih =>
      rw [List.map_cons, List.mapM_cons, DHCopyStep.copied, hpart.1, ih]
      rfl
  rw [builtFrom, hmapM]
  rfl

theorem builtFrom_ranges {data : List UInt8} (hsrc : objects.lookup src = some data) :
    builtFrom objects (previousObjectCopies src data.length) = some data := by
  obtain ⟨pieces, hmapM, hflatten⟩ := mapM_copied_ranges hsrc (Int.le_refl 0)
  rw [builtFrom, previousObjectCopies, hmapM, Option.map_some, hflatten]
  rfl

/-! ## Levels that are accepted -/

theorem total_of_checkDHParts {count i : Nat} {first total total' : Int} {parts : List DHPart}
    (h : checkDHParts count first i total parts = .ok total') :
    total' = total + (parts.map (·.size)).sum := by
  induction parts generalizing i total with
  | nil => simpa using (Except.ok.inj h).symm
  | cons part parts ih =>
    unfold checkDHParts at h
    split_ifs at h
    rw [ih h, List.map_cons, List.sum_cons, add_assoc]

/-- A level that is accepted has no more parts than one upload may, and its size is theirs. -/
theorem of_checkDHLevelForPublish (h : checkDHLevelForPublish l = none) :
    l.parts.length ≤ s3MaxMultipartParts ∧ l.size = (l.parts.map (·.size)).sum := by
  unfold checkDHLevelForPublish at h
  split_ifs at h with hempty hmany hhash
  refine ⟨Nat.le_of_not_lt hmany, ?_⟩
  split at h
  · cases h
  · next total htotal =>
    split_ifs at h with hsize
    rw [← not_not.1 hsize, total_of_checkDHParts htotal, zero_add]

theorem Held.length_flatten {datas : List (List UInt8)} (h : Held objects keys l datas) :
    (datas.flatten.length : Int) = (l.parts.map (·.size)).sum := by
  unfold Held at h
  generalize l.parts = parts at h
  induction h with
  | nil => rfl
  | cons hpart _ ih =>
    rw [List.flatten_cons, List.length_append, Nat.cast_add, hpart.2, ih, List.map_cons,
      List.sum_cons]

/-- A level copied in ranges is the level built from its parts, and its ranges tile it. They stay
within the limit of an upload whenever the parts do if and only if the level is at most as long as
that many ranges. -/
theorem copies_agree_iff {datas : List (List UInt8)} (haccepted : checkDHLevelForPublish l = none)
    (hheld : Held objects keys l datas) (hsrc : objects.lookup src = some datas.flatten) :
    ((∃ ranges, previousObjectCopies src l.size = ranges.map (fun r => ⟨src, some r⟩) ∧
        Tiles dhCopyRangeBytes 0 l.size ranges) ∧
      builtFrom objects (partCopySteps keys l) = some datas.flatten ∧
      builtFrom objects (previousObjectCopies src l.size) = some datas.flatten ∧
      ((partCopySteps keys l).length ≤ s3MaxMultipartParts →
        (previousObjectCopies src l.size).length ≤ s3MaxMultipartParts)) ↔
    l.size ≤ s3MaxMultipartParts * dhCopyRangeBytes := by
  obtain ⟨hparts, hsum⟩ := of_checkDHLevelForPublish haccepted
  have hsize : (datas.flatten.length : Int) = l.size := hheld.length_flatten.trans hsum.symm
  have hlimit : (previousObjectCopies src l.size).length ≤ s3MaxMultipartParts ↔
      l.size ≤ s3MaxMultipartParts * dhCopyRangeBytes := by
    rw [previousObjectCopies, List.length_map, length_copyRanges_le, zero_add]
  have hpartSteps : (partCopySteps keys l).length ≤ s3MaxMultipartParts := by
    rwa [partCopySteps, List.length_map]
  rw [← hlimit]
  constructor
  · rintro ⟨-, -, -, hwithin⟩
    exact hwithin hpartSteps
  · intro hwithin
    refine ⟨⟨_, rfl, tiles_copyRanges l.size 0⟩, builtFrom_parts hheld, ?_, fun _ => hwithin⟩
    rw [← hsize]
    exact builtFrom_ranges hsrc

/-- The name of the parts of `sampleLevel`. -/
def sampleName : String := "084fed08b978af4d7d196a7446a86b58009e636b611db16211b65a9aadff29c5"

def sampleLayout : SnapshotKeys :=
  ⟨"2026-01-02T00:00:00Z", "latest.json", "snapshots/b/index.json", "snapshots/b/index.html",
    "parts/", "../../parts/", "snapshots/b"⟩

/-- The file that the snapshot before assembled. -/
def sampleFile : String := "snapshots/a/world@minecraft@@overworld/DistantHorizons.sqlite"

/-- A level of so many equal parts. -/
def sampleLevel (count : Nat) (size : Int) : DHIndexLevel :=
  ⟨"world@minecraft@@overworld", count * size, sampleName,
    List.replicate count ⟨sampleName, size⟩⟩

/-- A bucket with the one part of it, and with the file that the snapshot before assembled. -/
def sampleObjects (count : Nat) (data : List UInt8) : GoMap (List UInt8) :=
  GoMap.ofList [("parts/" ++ sampleName, data),
    (sampleFile, (List.replicate count data).flatten)]

theorem checkDHParts_replicate {size : Int} (hpos : 0 < size) (hmax : size ≤ maxUploadObjectBytes)
    (count k i : Nat) (total : Int) :
    checkDHParts count size i total (List.replicate k ⟨sampleName, size⟩) =
      .ok (total + k * size) := by
  have hname : isSha256 sampleName = true := by decide +kernel
  induction k generalizing i total with
  | zero => simp [checkDHParts]
  | succ k ih =>
    have hbounds : ¬(size ≤ 0 ∨ maxUploadObjectBytes < size) := by omega
    rw [List.replicate_succ, checkDHParts, if_neg (not_not_intro hname), if_neg hbounds,
      if_neg (by simp), ih]
    congr 1
    push_cast
    ring

theorem accepted_sampleLevel {count : Nat} {size : Int} (hcount : 0 < count)
    (hlimit : count ≤ s3MaxMultipartParts) (hpos : 0 < size) (hmax : size ≤ maxUploadObjectBytes) :
    checkDHLevelForPublish (sampleLevel count size) = none := by
  have hname : isSha256 sampleName = true := by decide +kernel
  have hfirst : ((sampleLevel count size).parts.head?.map (·.size)).getD 0 = size := by
    obtain ⟨k, rfl⟩ := Nat.exists_eq_add_of_lt hcount
    rw [zero_add]
    rfl
  have hlength : (sampleLevel count size).parts.length = count := List.length_replicate
  have htotal : checkDHParts count size 0 0 (sampleLevel count size).parts =
      .ok (0 + count * size) := checkDHParts_replicate hpos hmax count count 0 0
  have hhash : ¬¬isSha256 (sampleLevel count size).sha256 = true := not_not_intro hname
  have hsize : (sampleLevel count size).size = count * size := rfl
  rw [checkDHLevelForPublish, hlength, hfirst, htotal, if_neg (by omega), if_neg (by omega),
    if_neg hhash, hsize]
  dsimp only
  rw [zero_add, if_neg (not_not_intro rfl)]

theorem held_sampleLevel {count : Nat} {data : List UInt8} :
    Held (sampleObjects count data) sampleLayout (sampleLevel count data.length)
      (List.replicate count data) := by
  have hpart : (sampleObjects count data).lookup (sampleLayout.partKey sampleName) = some data := rfl
  have heach (k : Nat) : List.Forall₂ (fun (part : DHPart) d =>
      (sampleObjects count data).lookup (sampleLayout.partKey part.sha256) = some d ∧
        (d.length : Int) = part.size)
      (List.replicate k ⟨sampleName, data.length⟩) (List.replicate k data) := by
    induction k with
    | zero => exact .nil
    | succ k ih => exact .cons ⟨hpart, rfl⟩ ih
  exact heach count

theorem lookup_sampleObjects (count : Nat) (data : List UInt8) :
    (sampleObjects count data).lookup sampleFile = some (List.replicate count data).flatten := rfl

/-- A level of two parts of three bytes. -/
theorem copies_agree_iff_sample :
    builtFrom (sampleObjects 2 [1, 2, 3]) (previousObjectCopies sampleFile 6) =
      some [1, 2, 3, 1, 2, 3] := by
  have haccepted : checkDHLevelForPublish (sampleLevel 2 3) = none :=
    accepted_sampleLevel Nat.two_pos (by decide) (by decide) (by decide)
  have hheld : Held (sampleObjects 2 [1, 2, 3]) sampleLayout (sampleLevel 2 3)
      (List.replicate 2 [1, 2, 3]) := held_sampleLevel
  have hagree := copies_agree_iff haccepted hheld (lookup_sampleObjects 2 [1, 2, 3])
  exact (hagree.2 (by decide)).2.2.1

/-- A level of 2001 parts of 5 GiB is accepted, and its parts could be copied; but it has 10005
ranges. -/
theorem not_copies_within_limit : ¬ ∀ objects keys l src datas, checkDHLevelForPublish l = none →
    Held objects keys l datas → objects.lookup src = some datas.flatten →
      (partCopySteps keys l).length ≤ s3MaxMultipartParts →
        (previousObjectCopies src l.size).length ≤ s3MaxMultipartParts := by
  intro hwithin
  obtain ⟨data, hdata⟩ : ∃ data : List UInt8, (data.length : Int) = maxUploadObjectBytes :=
    ⟨List.replicate maxUploadObjectBytes.toNat 0, by
      rw [List.length_replicate, Int.toNat_of_nonneg (by decide)]⟩
  have haccepted : checkDHLevelForPublish (sampleLevel 2001 data.length) = none :=
    accepted_sampleLevel (by decide) (by decide) (by rw [hdata]; decide) (by rw [hdata])
  have hparts : (partCopySteps sampleLayout (sampleLevel 2001 data.length)).length ≤
      s3MaxMultipartParts := by
    rw [partCopySteps, List.length_map]
    exact (of_checkDHLevelForPublish haccepted).1
  have hmany := hwithin _ _ _ _ _ haccepted held_sampleLevel (lookup_sampleObjects 2001 data) hparts
  have hsize : (sampleLevel 2001 data.length).size = (2001 : Nat) * (data.length : Int) := rfl
  rw [previousObjectCopies, List.length_map, length_copyRanges_le, hsize, hdata] at hmany
  exact absurd hmany (by decide)

end Konnekt.Snapshots
