import Konnekt.Correctness.Staging
import Konnekt.Run.Labelled
import Konnekt.Snapshots.SnapshotRun

/-!
# A staged snapshot can be published

A run takes the parts of the snapshot before for granted. Those of the bucket's are in the
bucket; those of the index in the staging folder are in the folder only if the run that wrote it
had them staged, which one measured against the bucket has not.
-/

namespace Konnekt.Snapshots

open Go Labelled

section

variable {sha256 : List UInt8 → String} {disk : StageDisk} {st : DHStage} {known : Finset String}

/-! ## What staging adds -/

/-- What each part that is staged keeps, however staging ends, staging keeps. -/
structure KeptByParts (sha256 : List UInt8 → String) (P : GoMap (List UInt8) → Prop) : Prop where
  insert : ∀ folder chunk, P folder → P (folder.insert (sha256 chunk) chunk)

variable {P : GoMap (List UInt8) → Prop} (hP : KeptByParts sha256 P)

include hP

theorem KeptByParts.stagePart {chunk : List UInt8} {absent : List DHPart} {run : StageRun}
    (h : P run.folder) : P (st.stagePart sha256 disk known chunk absent run).2.folder := by
  unfold DHStage.stagePart DHStage.writePart
  dsimp only
  split
  · exact h
  · split
    · exact h
    · next run' hwritten =>
      split at hwritten
      · cases hwritten
        exact h
      · split at hwritten
        · cases hwritten
        · cases hwritten
          exact hP.insert _ _ h

theorem KeptByParts.indexLoop {n : Nat} (hn : 0 < n) {path : String} {r : Reader}
    {level : DHIndexLevel} {whole : List UInt8} {absent : List DHPart} {run : StageRun}
    (h : P run.folder) :
    P (st.indexLoop sha256 disk hn path known r level whole absent run).2.folder := by
  induction hlength : r.rest.length using Nat.strong_induction_on
    generalizing r level whole absent run with
  | _ m ih =>
  subst hlength
  cases hctx : st.ctx run.checks with
  | some e =>
    rw [DHStage.indexLoop, hctx]
    exact h
  | none =>
    by_cases hfull : n ≤ r.rest.length
    · obtain ⟨cuts, heq⟩ := indexLoop_full hn hctx hfull
      have hstaged := @KeptByParts.stagePart sha256 disk st known P hP (r.rest.take n) absent
        { run with checks := run.checks + 1 } h
      rw [heq]
      split
      · next hrun =>
        rw [hrun] at hstaged
        exact hstaged
      · next hrun =>
        rw [hrun] at hstaged
        refine ih (r.rest.drop n).length ?_ hstaged rfl
        rw [List.length_drop]
        omega
    · by_cases hnil : r.rest = []
      · rw [indexLoop_end hn hctx hnil]
        exact h
      · have hstaged := @KeptByParts.stagePart sha256 disk st known P hP r.rest absent
          { run with checks := run.checks + 1 } h
        rw [indexLoop_short hn hctx (Nat.lt_of_not_le hfull) hnil]
        split
        · next hrun =>
          rw [hrun] at hstaged
          exact hstaged
        · next hrun =>
          rw [hrun] at hstaged
          exact hstaged

theorem KeptByParts.indexLevels {levels : List DHIndexLevel} {absent : List DHPart}
    {run : StageRun} {ls : List DHLevel} (h : P run.folder) :
    P (st.indexLevels sha256 disk known levels absent run ls).2.folder := by
  induction ls generalizing levels absent run with
  | nil => exact h
  | cons l ls ih =>
    have hlevel : P (st.indexDHDatabase sha256 disk l.path l.folder known run).2.folder := by
      unfold DHStage.indexDHDatabase
      split
      · split
        · exact h
        · exact hP.indexLoop _ h
      · exact h
    rw [DHStage.indexLevels]
    split
    · next hrun =>
      rw [hrun] at hlevel
      exact hlevel
    · next hrun =>
      rw [hrun] at hlevel
      exact ih hlevel

theorem KeptByParts.stageDHSnapshotRun {src : DHSnapshotSource} {prev : Option DHIndex}
    {keys : SnapshotKeys} {folder : GoMap (List UInt8)} (h : P folder) :
    P (stageDHSnapshotRun sha256 disk src prev keys st folder).2 := by
  have hlevels := @KeptByParts.indexLevels sha256 disk st (prev.elim ∅ DHIndex.partSet) P hP [] []
    ⟨∅, 0, folder⟩ src.levels h
  unfold Snapshots.stageDHSnapshotRun
  dsimp only
  split
  · next hrun =>
    rw [hrun] at hlevels
    exact hlevels
  · next hrun =>
    rw [hrun] at hlevels
    exact hlevels

omit hP

/-! ## What staging leaves -/

/-- There is a file of the name, with the bytes that the name stands for. -/
def HasFile (sha256 : List UInt8 → String) (parts : GoMap (List UInt8)) (name : String) : Prop :=
  ∃ data, parts.lookup name = some data ∧ sha256 data = name

theorem keptByParts_hasFile (name : String) :
    KeptByParts sha256 fun parts => HasFile sha256 parts name where
  insert folder chunk h := by
    by_cases hname : name = sha256 chunk
    · subst hname
      exact ⟨chunk, AList.lookup_insert _, rfl⟩
    · obtain ⟨data, hdata, hhash⟩ := h
      exact ⟨data, (AList.lookup_insert_ne hname).trans hdata, hhash⟩

variable {src : DHSnapshotSource} {prev : Option DHIndex} {keys : SnapshotKeys}
  {folder parts : GoMap (List UInt8)} {ix : DHIndex} {absent : List DHPart}

/-- Staging that gives an index lists the chunks of the databases, leaves the files that the index
before knows of, and has a file for each other chunk. -/
theorem parts_of_staged (hdir : st.dir ≠ "")
    (h : stageDHSnapshotRun sha256 disk src prev keys st folder = (.ok (ix, absent), parts)) :
    (ix.format = dhIndexFormat ∧
        ix.parts = (chunksOf disk st.partSize.toNat src.levels).map (partOf sha256)) ∧
      (∀ name ∈ prev.elim ∅ DHIndex.partSet, parts.lookup name = folder.lookup name) ∧
        ∀ p ∈ chunksOf disk st.partSize.toNat src.levels,
          sha256 p ∉ prev.elim ∅ DHIndex.partSet → HasFile sha256 parts (sha256 p) := by
  unfold stageDHSnapshotRun at h
  dsimp only at h
  split at h
  · cases h
  · next levels absent₁ run₁ hlevels =>
    obtain ⟨hok, rfl⟩ := Prod.mk.inj h
    obtain ⟨rfl, rfl⟩ := Prod.mk.inj (Except.ok.inj hok)
    obtain ⟨new, rfl, hnew, hstages⟩ := indexes_of_indexLevels hlevels
    have hfolder := hstages.folder
    rw [if_neg hdir] at hfolder
    have hnames := @map_fresh sha256 (prev.elim ∅ DHIndex.partSet) ∅
      (chunksOf disk st.partSize.toNat src.levels)
    refine ⟨⟨rfl, parts_of_levels hnew⟩, fun name hname => ?_, fun p hp hunknown => ?_⟩
    · rw [hfolder]
      refine lookup_added.1 fun hmem => ?_
      rw [hnames, List.mem_eraseDups, List.mem_filter] at hmem
      have hnot : name ∉ prev.elim ∅ DHIndex.partSet := by
        simpa using hmem.2
      exact hnot hname
    · rw [hfolder]
      have hmem : sha256 p ∈ (fresh sha256 (prev.elim ∅ DHIndex.partSet) ∅
          (chunksOf disk st.partSize.toNat src.levels)).map sha256 := by
        rw [hnames, List.mem_eraseDups, List.mem_filter]
        exact ⟨List.mem_map_of_mem hp, by simpa using hunknown⟩
      obtain ⟨q, -, hhash, hlookup⟩ := lookup_added.2 hmem
      exact ⟨q, hlookup, hhash⟩

theorem mem_partSet {name : String}
    (hparts : ix.parts = (chunksOf disk n src.levels).map (partOf sha256)) :
    name ∈ ix.partSet ↔ ∃ p ∈ chunksOf disk n src.levels, sha256 p = name := by
  rw [DHIndex.partSet, List.mem_toFinset, ← DHIndex.parts, hparts, List.map_map]
  exact List.mem_map

end

/-! ## What a run does to the folder -/

/-- What `json.Unmarshal` makes of what `json.MarshalIndent` wrote. -/
structure IndexFormat.Faithful (f : IndexFormat) : Prop where
  index_marshal : ∀ ix data, ix.format = dhIndexFormat → f.marshal ix = .ok data →
    f.unmarshal.index data = .ok ix

theorem IndexFormat.Faithful.parseDHIndex_marshal {f : IndexFormat} (hf : f.Faithful)
    {ix : DHIndex} {data : List UInt8} (hformat : ix.format = dhIndexFormat)
    (hdata : f.marshal ix = .ok data) : f.unmarshal.parseDHIndex data = .ok ix := by
  rw [Unmarshal.parseDHIndex, hf.index_marshal ix data hformat hdata]
  dsimp only
  rw [if_neg (not_not_intro hformat)]

section

variable {f : IndexFormat} {sha256 : List UInt8 → String} {r : DHRun}
  {folder folder' : StagingFolder} {pre : DHPreflight}

/-- The databases were staged to the folder `parts`, however that ended. -/
def DHRun.Stages (sha256 : List UInt8 → String) (r : DHRun) (pre : DHPreflight)
    (folder : StagingFolder) (result : Except String (DHIndex × List DHPart))
    (parts : GoMap (List UInt8)) : Prop :=
  ∃ keys, stageDHSnapshotRun sha256 r.disk.stage pre.src pre.prev keys
    ⟨r.plan.stageDir, r.plan.partSize, r.host.ctx⟩ folder.parts = (result, parts)

/-- A copy that fails has staged some parts or none; one that does not has written the index. -/
theorem copy_cases (f : IndexFormat) (sha256 : List UInt8 → String) (r : DHRun)
    (pre : DHPreflight) (folder : StagingFolder) :
    ((r.copy f sha256 pre folder).2 = folder ∨
      ∃ result parts, r.Stages sha256 pre folder result parts ∧
        (r.copy f sha256 pre folder).2 = { folder with parts }) ∧
      (∃ e, (r.copy f sha256 pre folder).1 = .error e) ∨
    ∃ ix absent data parts, r.Stages sha256 pre folder (.ok (ix, absent)) parts ∧
      f.marshal ix = .ok data ∧ (r.copy f sha256 pre folder).2 = ⟨some data, parts⟩ ∧
        ∃ res, (r.copy f sha256 pre folder).1 = .ok res := by
  unfold DHRun.copy
  split
  · exact Or.inl ⟨Or.inl rfl, _, rfl⟩
  · split
    · exact Or.inl ⟨Or.inl rfl, _, rfl⟩
    · split
      · exact Or.inl ⟨Or.inl rfl, _, rfl⟩
      · next keys _ =>
        split
        · next hstage => exact Or.inl ⟨Or.inr ⟨_, _, ⟨keys, hstage⟩, rfl⟩, _, rfl⟩
        · next hstage =>
          split
          · exact Or.inl ⟨Or.inr ⟨_, _, ⟨keys, hstage⟩, rfl⟩, _, rfl⟩
          · next hdata =>
            split
            · exact Or.inl ⟨Or.inr ⟨_, _, ⟨keys, hstage⟩, rfl⟩, _, rfl⟩
            · exact Or.inr ⟨_, _, _, _, ⟨keys, hstage⟩, hdata, rfl, _, rfl⟩

/-- What a run leaves: the folder as it was, more parts, or a new index too, which a run that
succeeds has pruned after. -/
inductive DHRun.Leaves (f : IndexFormat) (sha256 : List UInt8 → String) (r : DHRun)
    (folder : StagingFolder) : Except String DHRunResult → StagingFolder → Prop
  | nothing (e : String) : Leaves f sha256 r folder (.error e) folder
  | parts (e : String) {pre : DHPreflight} {result : Except String (DHIndex × List DHPart)}
      {parts : GoMap (List UInt8)} (hpre : r.preflight f folder = .ok pre)
      (hstages : r.Stages sha256 pre folder result parts) :
      Leaves f sha256 r folder (.error e) { folder with parts }
  | index (e : String) {pre : DHPreflight} {ix : DHIndex} {absent : List DHPart}
      {data : List UInt8} {parts : GoMap (List UInt8)} (hpre : r.preflight f folder = .ok pre)
      (hstages : r.Stages sha256 pre folder (.ok (ix, absent)) parts)
      (hdata : f.marshal ix = .ok data) : Leaves f sha256 r folder (.error e) ⟨some data, parts⟩
  | pruned (res : DHRunResult) {pre : DHPreflight} {ix : DHIndex} {absent : List DHPart}
      {data : List UInt8} {parts : GoMap (List UInt8)} (hpre : r.preflight f folder = .ok pre)
      (hstages : r.Stages sha256 pre folder (.ok (ix, absent)) parts)
      (hdata : f.marshal ix = .ok data) :
      Leaves f sha256 r folder (.ok res) (r.pruneStaging f pre ⟨some data, parts⟩)

theorem leaves_of_copy (hpre : r.preflight f folder = .ok pre) {e : String}
    (hcopy : r.copy f sha256 pre folder = (.error e, folder')) (e' : String) :
    r.Leaves f sha256 folder (.error e') folder' := by
  rcases copy_cases f sha256 r pre folder with
    ⟨hleft | ⟨result, parts, hstages, hleft⟩, -⟩ | ⟨ix, absent, data, parts, -, -, -, res, hres⟩
  · rw [hcopy] at hleft
    obtain rfl : folder' = folder := hleft
    exact .nothing e'
  · rw [hcopy] at hleft
    obtain rfl : folder' = _ := hleft
    exact .parts e' hpre hstages
  · rw [hcopy] at hres
    cases hres

theorem exists_of_copy {res : DHRunResult}
    (hcopy : r.copy f sha256 pre folder = (.ok res, folder')) : ∃ ix absent data parts,
      r.Stages sha256 pre folder (.ok (ix, absent)) parts ∧ f.marshal ix = .ok data ∧
        folder' = ⟨some data, parts⟩ := by
  rcases copy_cases f sha256 r pre folder with
    ⟨-, e, he⟩ | ⟨ix, absent, data, parts, hstages, hdata, hleft, -⟩
  · rw [hcopy] at he
    cases he
  · rw [hcopy] at hleft
    exact ⟨ix, absent, data, parts, hstages, hdata, hleft⟩

theorem leaves_runDHSnapshot (f : IndexFormat) (sha256 : List UInt8 → String) (r : DHRun)
    (folder : StagingFolder) : r.Leaves f sha256 folder (runDHSnapshot f sha256 r folder).1
      (runDHSnapshot f sha256 r folder).2 := by
  unfold runDHSnapshot
  split
  · exact .nothing _
  · next pre hpre =>
    split
    · unfold DHRun.copyWhileDown
      split
      · exact .nothing _
      · split
        · next hcopy => exact leaves_of_copy hpre hcopy _
        · next hcopy =>
          obtain ⟨ix, absent, data, parts, hstages, hdata, rfl⟩ := exists_of_copy hcopy
          exact .pruned _ hpre hstages hdata
    · split
      · exact .nothing _
      · unfold DHRun.stopCopyStart
        split
        · exact .nothing _
        · split
          · next hcopy _ => exact leaves_of_copy hpre hcopy _
          · next hcopy _ => exact leaves_of_copy hpre hcopy _
          · next hcopy _ =>
            obtain ⟨ix, absent, data, parts, hstages, hdata, rfl⟩ := exists_of_copy hcopy
            exact .index _ hpre hstages hdata
          · next hcopy _ =>
            obtain ⟨ix, absent, data, parts, hstages, hdata, rfl⟩ := exists_of_copy hcopy
            exact .pruned _ hpre hstages hdata

/-! ## Pruning -/

/-- A part that the new index names stays, unless the bucket's index names it too; what stays has
its bytes. -/
theorem lookup_pruneStagedParts (disk : DHRunDisk) (parts : GoMap (List UInt8)) (ix : DHIndex)
    (uploaded : Option DHIndex) (name : String) :
    (name ∈ ix.partSet → name ∉ uploaded.elim ∅ DHIndex.partSet →
      (disk.pruneStagedParts parts ix uploaded).lookup name = parts.lookup name) ∧
    ∀ data, (disk.pruneStagedParts parts ix uploaded).lookup name = some data →
      parts.lookup name = some data := by
  unfold DHRunDisk.pruneStagedParts
  dsimp only
  split
  · exact ⟨fun _ _ => rfl, fun _ h => h⟩
  · rw [GoMap.lookup_deleteKeys]
    refine ⟨fun hlive hup => if_neg ?_, fun data hdata => ?_⟩
    · rw [decide_eq_true (And.intro hlive hup), Bool.not_true, Bool.and_false, Bool.false_and]
      exact Bool.false_ne_true
    · split at hdata
      · cases hdata
      · exact hdata

theorem hasFile_pruneStaging {data : List UInt8} {parts : GoMap (List UInt8)} {ix : DHIndex}
    (hix : f.unmarshal.parseDHIndex data = .ok ix) {name : String} (hname : name ∈ ix.partSet)
    (hup : name ∉ (if pre.prevFromBucket then pre.prev else none).elim ∅ DHIndex.partSet) :
    HasFile sha256 (r.pruneStaging f pre ⟨some data, parts⟩).parts name ↔
      HasFile sha256 parts name := by
  unfold DHRun.pruneStaging
  dsimp only
  split
  · exact Iff.rfl
  · exact Iff.rfl
  · next hdata _ =>
    obtain rfl := Option.some.inj hdata
    rw [hix]
    unfold HasFile
    rw [(lookup_pruneStagedParts r.disk parts ix _ name).1 hname hup]

theorem index_pruneStaging (folder : StagingFolder) :
    (r.pruneStaging f pre folder).index = folder.index := by
  unfold DHRun.pruneStaging
  split
  · rfl
  · rfl
  · split <;> rfl

/-- What stays of the parts has its bytes. -/
theorem lookup_pruneStaging {name : String} {data : List UInt8}
    (h : (r.pruneStaging f pre folder).parts.lookup name = some data) :
    folder.parts.lookup name = some data := by
  unfold DHRun.pruneStaging at h
  split at h
  · exact h
  · exact h
  · split at h
    · exact h
    · exact (lookup_pruneStagedParts r.disk folder.parts _ _ name).2 data h

/-! ## What a run is measured against -/

/-- The part is named by the index that `latest.json` of the bucket points at. -/
def DHRun.UpInBucket (f : IndexFormat) (r : DHRun) (name : String) : Prop :=
  ∃ bucket keys prev, r.plan.bucket = some bucket ∧
    snapshotKeys r.plan.keyPrefix r.plan.token (snapshotTime r.host.now) = .ok keys ∧
      readLatestIndex f.unmarshal bucket keys.latest = .ok (some prev) ∧
        name ∈ prev.index.partSet

theorem preflight_spec (h : r.preflight f folder = .ok pre) :
    r.host.source = .ok pre.src ∧
      r.previousIndex f folder = .ok (pre.prev, pre.prevFromBucket) := by
  unfold DHRun.preflight at h
  split at h
  · cases h
  · split at h
    · cases h
    · next hsource =>
      split at h
      · cases h
      · split at h
        · cases h
        · split at h
          · cases h
          · next hprev =>
            obtain rfl := Except.ok.inj h
            exact ⟨hsource, hprev⟩

theorem previousIndex_local (hbucket : r.plan.bucket = none) :
    r.previousIndex f folder = .ok (r.localIndex f folder, false) := by
  unfold DHRun.previousIndex
  rw [hbucket]

theorem localIndex_of_index {data : List UInt8} {ix : DHIndex} (hread : r.disk.readIndex = none)
    (hdata : folder.index = some data) (hix : f.unmarshal.parseDHIndex data = .ok ix) :
    r.localIndex f folder = some ix := by
  unfold DHRun.localIndex
  rw [hdata, hread]
  dsimp only
  rw [hix]
  rfl

theorem readLatestIndex_of_pointer {u : Unmarshal} {get : DHIndexReader Id} {key indexKey : String}
    {pointer data : List UInt8} {latest : DHLatest} {ix : DHIndex}
    (hpointer : get key = .ok (some pointer)) (hlatest : u.parseDHLatest pointer = .ok latest)
    (hkey : latestIndexKey key latest = .ok indexKey) (hdata : get indexKey = .ok (some data))
    (hix : u.parseDHIndex data = .ok ix) :
    readLatestIndex u get key = (.ok (some ⟨ix, indexKey⟩) : Except _ _) := by
  unfold readLatestIndex
  dsimp only [bind, pure]
  rw [hpointer]
  dsimp only
  rw [hlatest]
  dsimp only
  rw [hkey]
  dsimp only
  rw [hdata]
  dsimp only
  rw [hix]

theorem previousIndex_of_bucket {bucket : DHIndexReader Id} {keys : SnapshotKeys}
    {prev : DHLatestIndex} (hbucket : r.plan.bucket = some bucket)
    (hkeys : snapshotKeys r.plan.keyPrefix r.plan.token (snapshotTime r.host.now) = .ok keys)
    (hprev : readLatestIndex f.unmarshal bucket keys.latest = (.ok (some prev) : Except _ _)) :
    r.previousIndex f folder = .ok (some prev.index, true) := by
  unfold DHRun.previousIndex
  rw [hbucket]
  dsimp only
  rw [hkeys]
  dsimp only
  rw [hprev]

theorem upInBucket_of_previousIndex {bucket : DHIndexReader Id}
    (hbucket : r.plan.bucket = some bucket) {prev : Option DHIndex} {fromBucket : Bool}
    (h : r.previousIndex f folder = .ok (prev, fromBucket)) :
    (if fromBucket then prev else none) = prev ∧
      ∀ name ∈ prev.elim ∅ DHIndex.partSet, r.UpInBucket f name := by
  unfold DHRun.previousIndex at h
  rw [hbucket] at h
  dsimp only at h
  split at h
  · cases h
  · next hkeys =>
    split at h
    · cases h
    · obtain ⟨rfl, rfl⟩ := Prod.mk.inj (Except.ok.inj h)
      exact ⟨rfl, fun name hname => absurd hname (Finset.notMem_empty name)⟩
    · next hlatest =>
      obtain ⟨rfl, rfl⟩ := Prod.mk.inj (Except.ok.inj h)
      exact ⟨rfl, fun name hname => ⟨bucket, _, _, hbucket, hkeys, hlatest, hname⟩⟩

/-! ## What a publish needs -/

/-- The index in the folder can be read, and each part it names is a file in the folder or up in
the bucket of the run. -/
def Publishable (f : IndexFormat) (sha256 : List UInt8 → String) (r : DHRun)
    (folder : StagingFolder) : Prop :=
  ∃ data ix, folder.index = some data ∧ f.unmarshal.parseDHIndex data = .ok ix ∧
    ∀ name ∈ ix.partSet, HasFile sha256 folder.parts name ∨ r.UpInBucket f name

/-- A run without a destination finds a file for each part of its databases that the index in the
folder names. -/
def DHRun.Covered (f : IndexFormat) (sha256 : List UInt8 → String) (r : DHRun)
    (folder : StagingFolder) : Prop :=
  r.plan.bucket = none → ∀ src, r.host.source = .ok src →
    ∀ p ∈ chunksOf r.disk.stage r.plan.partSize.toNat src.levels,
      sha256 p ∈ (r.localIndex f folder).elim ∅ DHIndex.partSet →
        HasFile sha256 folder.parts (sha256 p)

/-- Pruned or not, it is the index that was written. -/
theorem publishable_pruneStaging {data : List UInt8} {parts : GoMap (List UInt8)} {ix : DHIndex}
    (hparse : f.unmarshal.parseDHIndex data = .ok ix) :
    Publishable f sha256 r (r.pruneStaging f pre ⟨some data, parts⟩) ↔
      ∀ name ∈ ix.partSet, HasFile sha256 (r.pruneStaging f pre ⟨some data, parts⟩).parts name ∨
        r.UpInBucket f name := by
  constructor
  · rintro ⟨data', ix', hdata', hparse', hall⟩
    rw [index_pruneStaging] at hdata'
    obtain rfl := Option.some.inj hdata'
    obtain rfl := Except.ok.inj (hparse.symm.trans hparse')
    exact hall
  · exact fun hall => ⟨data, ix, index_pruneStaging _, hparse, hall⟩

/-- A run that succeeds leaves what a publish needs exactly if its index before did. -/
theorem publishable_iff (hf : f.Faithful) {res : DHRunResult}
    (hok : (runDHSnapshot f sha256 r folder).1 = .ok res) :
    Publishable f sha256 r (runDHSnapshot f sha256 r folder).2 ↔ r.Covered f sha256 folder := by
  have hleaves := leaves_runDHSnapshot f sha256 r folder
  rw [hok] at hleaves
  generalize (runDHSnapshot f sha256 r folder).2 = folder' at hleaves
  cases hleaves with
  | @pruned _ pre ix absent data parts hpre hstages hdata =>
  obtain ⟨hsource, hprev⟩ := preflight_spec hpre
  obtain ⟨keys, hstage⟩ := hstages
  obtain ⟨⟨hformat, hparts⟩, hknown, hnew⟩ := parts_of_staged r.plan.stageDir_ne hstage
  have hparse := hf.parseDHIndex_marshal hformat hdata
  rw [publishable_pruneStaging hparse]
  cases hbucket : r.plan.bucket with
  | some bucket =>
    obtain ⟨hup, hin⟩ := upInBucket_of_previousIndex hbucket hprev
    refine iff_of_true (fun name hname => ?_) fun hnone => ?_
    · by_cases hold : name ∈ pre.prev.elim ∅ DHIndex.partSet
      · exact Or.inr (hin name hold)
      · left
        rw [hasFile_pruneStaging hparse hname (by rwa [hup])]
        obtain ⟨p, hp, rfl⟩ := (mem_partSet hparts).1 hname
        exact hnew p hp hold
    · rw [hbucket] at hnone
      cases hnone
  | none =>
    rw [previousIndex_local hbucket] at hprev
    obtain ⟨hlocal, hfrom⟩ := Prod.mk.inj (Except.ok.inj hprev)
    have hup (name : String) :
        name ∉ (if pre.prevFromBucket then pre.prev else none).elim ∅ DHIndex.partSet := by
      rw [← hfrom]
      exact Finset.notMem_empty name
    have hnot (name : String) : ¬ r.UpInBucket f name := by
      rintro ⟨bucket, _, _, hsome, -⟩
      rw [hbucket] at hsome
      cases hsome
    rw [← hlocal] at hknown hnew
    constructor
    · intro hall _ src hsrc p hp hold
      obtain rfl := Except.ok.inj (hsource.symm.trans hsrc)
      have hname : sha256 p ∈ ix.partSet := (mem_partSet hparts).2 ⟨p, hp, rfl⟩
      have hfile := (hasFile_pruneStaging hparse hname (hup _)).1
        ((hall _ hname).resolve_right (hnot _))
      unfold HasFile at hfile ⊢
      rwa [hknown _ hold] at hfile
    · intro hcovered name hname
      obtain ⟨p, hp, rfl⟩ := (mem_partSet hparts).1 hname
      refine Or.inl ((hasFile_pruneStaging hparse hname (hup _)).2 ?_)
      by_cases hold : sha256 p ∈ (r.localIndex f folder).elim ∅ DHIndex.partSet
      · have hfile := hcovered hbucket pre.src hsource p hp hold
        unfold HasFile at hfile ⊢
        rwa [hknown _ hold]
      · exact hnew p hp hold

/-! ## Runs on one folder -/

/-- Each part that the index in the folder names is a file in it. -/
def StagingFolder.Complete (f : IndexFormat) (sha256 : List UInt8 → String)
    (folder : StagingFolder) : Prop :=
  ∀ data ix, folder.index = some data → f.unmarshal.parseDHIndex data = .ok ix →
    ∀ name ∈ ix.partSet, HasFile sha256 folder.parts name

theorem StagingFolder.Complete.hasFile (h : folder.Complete f sha256) {name : String}
    (hname : name ∈ (r.localIndex f folder).elim ∅ DHIndex.partSet) :
    HasFile sha256 folder.parts name := by
  unfold DHRun.localIndex at hname
  split at hname
  · exact absurd hname (Finset.notMem_empty name)
  · exact absurd hname (Finset.notMem_empty name)
  · next data hdata _ =>
    cases hix : f.unmarshal.parseDHIndex data with
    | error e =>
      rw [hix] at hname
      exact absurd hname (Finset.notMem_empty name)
    | ok ix =>
      rw [hix] at hname
      exact h data ix hdata hix name hname

theorem StagingFolder.Complete.covered (h : folder.Complete f sha256) :
    r.Covered f sha256 folder := fun _ _ _ _ _ hold => h.hasFile hold

/-- What a run without a destination stages on a complete folder is complete. -/
theorem StagingFolder.Complete.staged (h : folder.Complete f sha256) (hf : f.Faithful)
    (hbucket : r.plan.bucket = none) (hpre : r.preflight f folder = .ok pre) {ix : DHIndex}
    {absent : List DHPart} {data : List UInt8} {parts : GoMap (List UInt8)}
    (hstages : r.Stages sha256 pre folder (.ok (ix, absent)) parts)
    (hdata : f.marshal ix = .ok data) :
    f.unmarshal.parseDHIndex data = .ok ix ∧ ∀ name ∈ ix.partSet, HasFile sha256 parts name := by
  obtain ⟨-, hprev⟩ := preflight_spec hpre
  obtain ⟨keys, hstage⟩ := hstages
  obtain ⟨⟨hformat, hparts⟩, hknown, hnew⟩ := parts_of_staged r.plan.stageDir_ne hstage
  rw [previousIndex_local hbucket] at hprev
  obtain ⟨hlocal, -⟩ := Prod.mk.inj (Except.ok.inj hprev)
  rw [← hlocal] at hknown hnew
  refine ⟨hf.parseDHIndex_marshal hformat hdata, fun name hname => ?_⟩
  obtain ⟨p, hp, rfl⟩ := (mem_partSet hparts).1 hname
  by_cases hold : sha256 p ∈ (r.localIndex f folder).elim ∅ DHIndex.partSet
  · have hfile := h.hasFile hold
    unfold HasFile at hfile ⊢
    rwa [hknown _ hold]
  · exact hnew p hp hold

/-- A run without a destination keeps a complete folder complete, however it ends. -/
theorem StagingFolder.Complete.run (h : folder.Complete f sha256) (hf : f.Faithful)
    (hbucket : r.plan.bucket = none) : (runDHSnapshot f sha256 r folder).2.Complete f sha256 := by
  have hleaves := leaves_runDHSnapshot f sha256 r folder
  generalize (runDHSnapshot f sha256 r folder).1 = result at hleaves
  generalize (runDHSnapshot f sha256 r folder).2 = folder' at hleaves ⊢
  cases hleaves with
  | nothing => exact h
  | @parts _ pre result parts _ hstages =>
    obtain ⟨keys, hstage⟩ := hstages
    intro data ix hdata hix name hname
    have hkept : HasFile sha256 (stageDHSnapshotRun sha256 r.disk.stage pre.src pre.prev keys
        ⟨r.plan.stageDir, r.plan.partSize, r.host.ctx⟩ folder.parts).2 name :=
      (keptByParts_hasFile name).stageDHSnapshotRun (h data ix hdata hix name hname)
    rwa [hstage] at hkept
  | index _ hpre hstages hdata =>
    obtain ⟨hparse, hfiles⟩ := h.staged hf hbucket hpre hstages hdata
    intro data' ix' hdata' hix' name hname
    obtain rfl := Option.some.inj hdata'
    obtain rfl := Except.ok.inj (hparse.symm.trans hix')
    exact hfiles name hname
  | @pruned _ pre _ _ _ _ hpre hstages hdata =>
    obtain ⟨hparse, hfiles⟩ := h.staged hf hbucket hpre hstages hdata
    intro data' ix' hdata' hix' name hname
    rw [index_pruneStaging] at hdata'
    obtain rfl := Option.some.inj hdata'
    obtain rfl := Except.ok.inj (hparse.symm.trans hix')
    have hprev := (preflight_spec hpre).2
    rw [previousIndex_local hbucket] at hprev
    obtain ⟨-, hfrom⟩ := Prod.mk.inj (Except.ok.inj hprev)
    refine (hasFile_pruneStaging hparse hname ?_).2 (hfiles name hname)
    rw [← hfrom]
    exact Finset.notMem_empty name

variable (f sha256) in
/-- The runs on one staging folder. -/
def stagings : System StagingFolder DHRun (Except String DHRunResult) where
  act := runDHSnapshot f sha256
  enabled _ _ := True

/-- A run that succeeds leaves what a publish needs exactly if it has a destination or there is a
file for each part it takes for granted. Where all runs are so, all leave what a publish needs; and
they are where none without a destination comes after one with a destination. -/
theorem stagings_publishable (hf : f.Faithful) (start : StagingFolder) :
    (∀ r folder res, (runDHSnapshot f sha256 r folder).1 = .ok res →
      (Publishable f sha256 r (runDHSnapshot f sha256 r folder).2 ↔ r.Covered f sha256 folder)) ∧
    (∀ h s, Run (stagings f sha256) (fun _ folder r => r.Covered f sha256 folder) start h s →
      ∀ e ∈ h, ∀ res, (stagings f sha256).answer e = .ok res →
        Publishable f sha256 e.2 ((stagings f sha256).act e.2 e.1).2) ∧
    ∀ h s, start.Complete f sha256 → Run (stagings f sha256)
      (fun h _ r => r.plan.bucket = none → ∀ e ∈ h, e.2.plan.bucket = none) start h s →
        Run (stagings f sha256) (fun _ folder r => r.Covered f sha256 folder) start h s := by
  refine ⟨fun r folder res hok => publishable_iff hf hok, fun h s hrun e he res hres => ?_,
    fun h s hstart hrun => ?_⟩
  · obtain ⟨newer, older, rfl⟩ := List.append_of_mem he
    exact (publishable_iff hf hres).2 hrun.before.2.2
  · suffices Run (stagings f sha256) (fun _ folder r => r.Covered f sha256 folder) start h s ∧
        ((∀ e ∈ h, e.2.plan.bucket = none) → s.Complete f sha256) from this.1
    induction hrun with
    | nil => exact ⟨.nil, fun _ => hstart⟩
    | act hrun r henabled hallowed ih =>
      obtain ⟨hcovered, hcomplete⟩ := ih
      refine ⟨hcovered.act r henabled fun hbucket => ?_, fun hall => ?_⟩
      · exact (hcomplete (hallowed hbucket)).covered hbucket
      · obtain ⟨hbucket, hrest⟩ := List.forall_mem_cons.1 hall
        exact (hcomplete hrest).run hf hbucket

end

/-! ## A run without a destination after one with a destination -/

/-- The bytes of a text in ASCII. -/
private def asciiBytes (s : String) : List UInt8 := s.toList.map fun c => c.toNat.toUInt8

private def digest : String := "084fed08b978af4d7d196a7446a86b58009e636b611db16211b65a9aadff29c5"

/-- The index of one database of one byte. -/
private def oneByteIndex (createdAt : String) : DHIndex :=
  ⟨1, createdAt, "../../parts/", "2.3.0", "1_key", [⟨"overworld", 1, digest, [⟨digest, 1⟩]⟩]⟩

private def indexHead : String := "\x7b\n  \"format\": 1,\n  \"createdAt\": \""

private def indexTail : String :=
  "\",\n  \"partsBase\": \"../../parts/\",\n  \"dhVersion\": \"2.3.0\",\n  \"serverFolder\": " ++
    "\"1_key\",\n  \"levels\": [\n    \x7b\n      \"folder\": \"overworld\",\n" ++
    "      \"size\": 1,\n      \"sha256\": \"" ++ digest ++ "\",\n      \"parts\": [\n" ++
    "        \x7b\n          \"sha256\": \"" ++ digest ++ "\",\n          \"size\": 1\n" ++
    "        \x7d\n      ]\n    \x7d\n  ]\n\x7d\n"

private def indexBytes (createdAt : String) : List UInt8 :=
  asciiBytes indexHead ++ asciiBytes createdAt ++ asciiBytes indexTail

/-- A pointer at the index that stands beside it. -/
private def pointerBytes : List UInt8 := asciiBytes "\x7b\"format\":1,\"index\":\"a\"\x7d"

private def times : List String :=
  ["2026-01-01T00:00:00Z", "2026-01-02T00:00:00Z", "2026-01-03T00:00:00Z"]

/-- `encoding/json`, on the texts of these indexes and of a pointer at the first. -/
private def indexFormat : IndexFormat where
  unmarshal := {
    latest := fun data =>
      if data = pointerBytes then .ok ⟨1, "", "a"⟩
      else .error "unexpected end of JSON input"
    index := fun data =>
      match times.find? fun t => data = indexBytes t with
      | some t => .ok (oneByteIndex t)
      | none => .error "unexpected end of JSON input" }
  marshal ix :=
    if ix.createdAt ∈ times ∧ ix = oneByteIndex ix.createdAt then .ok (indexBytes ix.createdAt)
    else .error "json: unsupported value"

private theorem indexBytes_inj {t t' : String} (ht : t ∈ times) (ht' : t' ∈ times)
    (h : indexBytes t = indexBytes t') : t = t' := by
  have hbytes : asciiBytes t = asciiBytes t' :=
    List.append_cancel_left (List.append_cancel_right h)
  have hall : ∀ t ∈ times, ∀ t' ∈ times, asciiBytes t = asciiBytes t' → t = t' := by
    decide +kernel
  exact hall t ht t' ht' hbytes

private theorem index_indexBytes {t : String} (ht : t ∈ times) :
    indexFormat.unmarshal.index (indexBytes t) = .ok (oneByteIndex t) := by
  have hfind : times.find? (fun t' => indexBytes t = indexBytes t') = some t := by
    cases hfound : times.find? fun t' => indexBytes t = indexBytes t' with
    | none =>
      rw [List.find?_eq_none] at hfound
      exact absurd (decide_eq_true rfl) (hfound t ht)
    | some t' =>
      have hsome := List.find?_some hfound
      rw [indexBytes_inj ht (List.mem_of_find?_eq_some hfound) (of_decide_eq_true hsome)]
  unfold indexFormat
  dsimp only
  rw [hfind]

private theorem faithful_indexFormat : indexFormat.Faithful where
  index_marshal ix data _ hdata := by
    unfold indexFormat at hdata
    dsimp only at hdata
    split at hdata
    · next hix =>
      obtain rfl := Except.ok.inj hdata
      rw [index_indexBytes hix.1, ← hix.2]
    · cases hdata

private theorem marshal_oneByteIndex {t : String} (ht : t ∈ times) :
    indexFormat.marshal (oneByteIndex t) = .ok (indexBytes t) := if_pos ⟨ht, rfl⟩

/-- A bucket with one snapshot of the database. -/
private def oneSnapshot : DHIndexReader Id := fun key =>
  if key = "latest.json" then .ok (some (pointerBytes))
  else if key = "a" then .ok (some (indexBytes "2026-01-01T00:00:00Z"))
  else .ok none

private def oneByteDisk : StageDisk where
  openFile _ := .ok ⟨[3], [], false⟩
  readError _ := ""
  writeError _ := none

private def oneByteSource : DHSnapshotSource :=
  ⟨"2.3.0", "1_key", [⟨"overworld", "DistantHorizons.sqlite"⟩]⟩

/-- A run on a server that is down, whose database has one byte. -/
private def oneByteRun (bucket : Option (DHIndexReader Id)) (time : UTCTime) : DHRun where
  plan := ⟨bucket, "backups", "", "", "/staging", by decide, 0, 2⟩
  host := {
    running := false
    canWarn := false
    source := .ok oneByteSource
    freeSpace := fun _ => none
    say := fun _ => none
    sleep := fun _ => none
    stopErr := none
    startErr := none
    down := none
    now := time
    copiedAt := time
    ctx := fun _ => none }
  disk := ⟨none, fun _ => .ok false, none, oneByteDisk, none, none, none, fun _ => none⟩

private theorem sampleSha256_three : sampleSha256 [3] = digest := by decide

private theorem digest_mem_oneByteIndex (t : String) : digest ∈ (oneByteIndex t).partSet := by
  rw [DHIndex.partSet, List.mem_toFinset]
  exact List.mem_cons_self

/-- The database is indexed, and its part is not staged if the index before has it. -/
private theorem stage_oneByte {prev : Option DHIndex} {keys : SnapshotKeys} {t : String}
    (hcreated : keys.createdAt = t) (hbase : keys.partsBase = "../../parts/")
    (hknown : digest ∈ prev.elim ∅ DHIndex.partSet) (parts : GoMap (List UInt8)) :
    stageDHSnapshotRun sampleSha256 oneByteDisk oneByteSource prev keys
      ⟨"/staging", 2, fun _ => none⟩ parts = (.ok (oneByteIndex t, []), parts) := by
  have hopen : oneByteDisk.openFile "DistantHorizons.sqlite" = .ok ⟨[3], [], false⟩ := rfl
  have hstage (run : StageRun) : DHStage.stagePart sampleSha256 oneByteDisk
      ⟨"/staging", 2, fun _ => none⟩ (prev.elim ∅ DHIndex.partSet) [3] [] run = (.ok [], run) := by
    unfold DHStage.stagePart partOf
    rw [sampleSha256_three]
    exact if_pos (Or.inl hknown)
  have hpos : 0 < (2 : Int).toNat := by decide
  have hctx : (⟨"/staging", 2, fun _ => none⟩ : DHStage).ctx 0 = none := rfl
  have hshort : (⟨[3], [], false⟩ : Reader).rest.length < (2 : Int).toNat := by decide
  unfold stageDHSnapshotRun DHStage.indexLevels DHStage.indexDHDatabase oneByteSource
  dsimp only
  rw [dif_pos hpos, hopen]
  dsimp only
  rw [indexLoop_short hpos hctx hshort (List.cons_ne_nil _ _), hstage]
  dsimp only [DHStage.indexLevels, finish, withPart, partOf]
  rw [sampleSha256_three, List.nil_append, sampleSha256_three, hcreated, hbase]
  rfl

private theorem join_latest : Path.join [trimSlashes "", "latest.json"] = "latest.json" := by
  decide +kernel

private theorem two_up : repeated "../" 2 ++ "parts/" = "../../parts/" := by decide

private theorem snapshotKeys_root (time : SnapshotTime) : ∃ keys,
    snapshotKeys "" "" time = .ok keys ∧ keys.createdAt = time.createdAt ∧
      keys.latest = "latest.json" ∧ keys.partsBase = "../../parts/" :=
  ⟨_, rfl, rfl, join_latest, two_up⟩

private theorem copy_oneByte (bucket : Option (DHIndexReader Id)) {time : UTCTime} {t : String}
    (ht : t ∈ times) (htime : formatDHCreatedAt time = t) {prev : Option DHIndex}
    (hknown : digest ∈ prev.elim ∅ DHIndex.partSet) (fromBucket : Bool) (folder : StagingFolder) :
    (oneByteRun bucket time).copy indexFormat sampleSha256 ⟨oneByteSource, prev, fromBucket, false⟩
      folder = (.ok ⟨"/staging", 0, 0, 1⟩, ⟨some (indexBytes t), folder.parts⟩) := by
  obtain ⟨keys, hkeys, hcreated, -, hbase⟩ := snapshotKeys_root (snapshotTime time)
  have hstage := stage_oneByte (hcreated.trans htime) hbase hknown folder.parts
  have hwal : checkNoWAL (oneByteRun bucket time).disk.lstat oneByteSource.levels = none := rfl
  unfold DHRun.copy
  rw [hwal]
  dsimp only [oneByteRun]
  rw [hkeys]
  dsimp only
  rw [hstage]
  dsimp only
  rw [marshal_oneByteIndex ht]
  rfl

private theorem run_oneByte {bucket : Option (DHIndexReader Id)} {time : UTCTime}
    {folder : StagingFolder} {prev : Option DHIndex} {fromBucket : Bool} {t : String}
    (ht : t ∈ times) (htime : formatDHCreatedAt time = t)
    (hprev : (oneByteRun bucket time).previousIndex indexFormat folder = .ok (prev, fromBucket))
    (hknown : digest ∈ prev.elim ∅ DHIndex.partSet) :
    runDHSnapshot indexFormat sampleSha256 (oneByteRun bucket time) folder =
      (.ok ⟨"/staging", 0, 0, 1⟩, (oneByteRun bucket time).pruneStaging indexFormat
        ⟨oneByteSource, prev, fromBucket, false⟩ ⟨some (indexBytes t), folder.parts⟩) := by
  have hpre : (oneByteRun bucket time).preflight indexFormat folder =
      .ok ⟨oneByteSource, prev, fromBucket, false⟩ := by
    unfold DHRun.preflight
    rw [hprev]
    rfl
  have hcopy := copy_oneByte bucket ht htime hknown fromBucket folder
  unfold runDHSnapshot
  rw [hpre]
  dsimp only
  rw [if_pos Bool.false_ne_true]
  unfold DHRun.copyWhileDown
  rw [hcopy]
  rfl

private theorem day2 : formatDHCreatedAt ⟨2026, 1, 2, 0, 0, 0⟩ = "2026-01-02T00:00:00Z" := by
  decide +kernel

private theorem day3 : formatDHCreatedAt ⟨2026, 1, 3, 0, 0, 0⟩ = "2026-01-03T00:00:00Z" := by
  decide +kernel

private theorem parse_indexBytes {t : String} (ht : t ∈ times) :
    indexFormat.unmarshal.parseDHIndex (indexBytes t) = .ok (oneByteIndex t) := by
  unfold Unmarshal.parseDHIndex
  rw [index_indexBytes ht]
  rfl

private theorem parse_pointerBytes :
    indexFormat.unmarshal.parseDHLatest pointerBytes = .ok ⟨1, "", "a"⟩ := by
  have hlatest : indexFormat.unmarshal.latest pointerBytes = .ok ⟨1, "", "a"⟩ := by
    unfold indexFormat
    dsimp only
    rw [if_pos rfl]
  unfold Unmarshal.parseDHLatest
  rw [hlatest]
  dsimp only
  rw [if_neg (by decide), if_neg (by decide +kernel)]

private theorem readLatestIndex_oneSnapshot :
    readLatestIndex indexFormat.unmarshal oneSnapshot "latest.json" =
      (.ok (some ⟨oneByteIndex "2026-01-01T00:00:00Z", "a"⟩) : Except _ _) := by
  have hpointer : oneSnapshot "latest.json" = .ok (some pointerBytes) := if_pos rfl
  have hkey : latestIndexKey "latest.json" ⟨1, "", "a"⟩ = .ok "a" := by decide +kernel
  have hdata : oneSnapshot "a" = .ok (some (indexBytes "2026-01-01T00:00:00Z")) := by
    unfold oneSnapshot
    rw [if_neg (by decide), if_pos rfl]
  have ht : "2026-01-01T00:00:00Z" ∈ times := by decide
  exact readLatestIndex_of_pointer hpointer parse_pointerBytes hkey hdata (parse_indexBytes ht)

private theorem previousIndex_oneSnapshot (time : UTCTime) (folder : StagingFolder) :
    (oneByteRun (some oneSnapshot) time).previousIndex indexFormat folder =
      .ok (some (oneByteIndex "2026-01-01T00:00:00Z"), true) := by
  obtain ⟨keys, hkeys, -, hlatest, -⟩ := snapshotKeys_root (snapshotTime time)
  have hread := readLatestIndex_oneSnapshot
  rw [← hlatest] at hread
  exact previousIndex_of_bucket rfl hkeys hread

/-- The folder after a run with the bucket. -/
private theorem folder_oneSnapshot (folder : StagingFolder) : ∃ folder',
    runDHSnapshot indexFormat sampleSha256
      (oneByteRun (some oneSnapshot) ⟨2026, 1, 2, 0, 0, 0⟩) folder =
        (.ok ⟨"/staging", 0, 0, 1⟩, folder') ∧
      folder'.index = some (indexBytes "2026-01-02T00:00:00Z") ∧
        ∀ name data, folder'.parts.lookup name = some data →
          folder.parts.lookup name = some data := by
  have ht : "2026-01-02T00:00:00Z" ∈ times := by decide
  exact ⟨_, run_oneByte ht day2 (previousIndex_oneSnapshot _ _) (digest_mem_oneByteIndex _),
    index_pruneStaging _, fun name data => lookup_pruneStaging⟩

/-- The part is up in the bucket when the first run takes it for granted; the second takes it for
granted too, without a bucket. -/
theorem not_publishable_after_bucket : ¬ ∀ h s,
    Run (stagings indexFormat sampleSha256) (fun _ _ _ => True) ⟨none, ∅⟩ h s →
      ∀ e ∈ h, ∀ res, (stagings indexFormat sampleSha256).answer e = .ok res →
        Publishable indexFormat sampleSha256 e.2
          ((stagings indexFormat sampleSha256).act e.2 e.1).2 := by
  intro hall
  obtain ⟨folder, hrun, hindex, hparts⟩ := folder_oneSnapshot ⟨none, ∅⟩
  have ht : "2026-01-02T00:00:00Z" ∈ times := by decide
  have ht' : "2026-01-03T00:00:00Z" ∈ times := by decide
  have hlocal : (oneByteRun none ⟨2026, 1, 3, 0, 0, 0⟩).localIndex indexFormat folder =
      some (oneByteIndex "2026-01-02T00:00:00Z") :=
    localIndex_of_index rfl hindex (parse_indexBytes ht)
  have hprev : (oneByteRun none ⟨2026, 1, 3, 0, 0, 0⟩).previousIndex indexFormat folder =
      .ok (some (oneByteIndex "2026-01-02T00:00:00Z"), false) := by
    rw [previousIndex_local rfl, hlocal]
  have hfirst : Run (stagings indexFormat sampleSha256) (fun _ _ _ => True) ⟨none, ∅⟩
      [(⟨none, ∅⟩, oneByteRun (some oneSnapshot) ⟨2026, 1, 2, 0, 0, 0⟩)] folder := by
    have hact : Run (stagings indexFormat sampleSha256) (fun _ _ _ => True) ⟨none, ∅⟩
        [(⟨none, ∅⟩, oneByteRun (some oneSnapshot) ⟨2026, 1, 2, 0, 0, 0⟩)]
        ((stagings indexFormat sampleSha256).act
          (oneByteRun (some oneSnapshot) ⟨2026, 1, 2, 0, 0, 0⟩) ⟨none, ∅⟩).2 :=
      Run.nil.act _ trivial trivial
    have hfolder : ((stagings indexFormat sampleSha256).act
        (oneByteRun (some oneSnapshot) ⟨2026, 1, 2, 0, 0, 0⟩) ⟨none, ∅⟩).2 = folder :=
      congrArg Prod.snd hrun
    rwa [hfolder] at hact
  have hok := congrArg Prod.fst
    (run_oneByte ht' day3 hprev (digest_mem_oneByteIndex "2026-01-02T00:00:00Z"))
  have hpublishable := hall _ _ (hfirst.act (oneByteRun none ⟨2026, 1, 3, 0, 0, 0⟩) trivial trivial)
    _ List.mem_cons_self _ hok
  have hcovered := (publishable_iff faithful_indexFormat hok).1 hpublishable
  have hchunk : [3] ∈ chunksOf oneByteDisk 2 oneByteSource.levels := by
    have hcontent : contentOf oneByteDisk "DistantHorizons.sqlite" = [3] := rfl
    refine List.mem_flatMap.2
      ⟨⟨"overworld", "DistantHorizons.sqlite"⟩, List.mem_cons_self, ?_⟩
    rw [hcontent, pieces_of_ne Nat.zero_lt_two (List.cons_ne_nil _ _)]
    exact List.mem_cons_self
  have hfile := hcovered rfl oneByteSource rfl [3] hchunk
  rw [hlocal, sampleSha256_three] at hfile
  obtain ⟨data, hdata, -⟩ := hfile (digest_mem_oneByteIndex _)
  cases hparts _ data hdata

/-- The first of the two runs, on an empty folder. -/
theorem stagings_publishable_empty :
    Publishable indexFormat sampleSha256 (oneByteRun (some oneSnapshot) ⟨2026, 1, 2, 0, 0, 0⟩)
      (runDHSnapshot indexFormat sampleSha256
        (oneByteRun (some oneSnapshot) ⟨2026, 1, 2, 0, 0, 0⟩) ⟨none, ∅⟩).2 := by
  obtain ⟨folder, hrun, -⟩ := folder_oneSnapshot ⟨none, ∅⟩
  have hcovered : (oneByteRun (some oneSnapshot) ⟨2026, 1, 2, 0, 0, 0⟩).Covered indexFormat
      sampleSha256 ⟨none, ∅⟩ := fun hnone => absurd hnone (Option.some_ne_none _)
  exact ((stagings_publishable faithful_indexFormat ⟨none, ∅⟩).1 _ _ _
    (congrArg Prod.fst hrun)).2 hcovered

end Konnekt.Snapshots
