import Konnekt.Correctness.LatestPointer
import Konnekt.Go.Value
import Konnekt.Snapshots.Index
import Mathlib.Data.Finset.Card
import Mathlib.Data.List.Sort

/-!
# Pruning the snapshots of a bucket

The last step of a publish keeps the newest snapshots of its layout and the one that the
pointer names, deletes the folders of the older ones, and then the parts which no index it
has kept names. The parts are below the prefix, the folders below the token of the link:
what another layout of the prefix needs, pruning does not ask.
-/

namespace Konnekt.Snapshots

open Go Path

/-! ## What is read -/

def dhIndexFile : String := "index.json"

/-- `SnapshotsPrefix`. -/
def SnapshotKeys.snapshotsPrefix (k : SnapshotKeys) : String := dir k.snapshotDir ++ "/"

/-- `reDHFolderStamp`. -/
def isDHFolderStamp (s : String) : Bool :=
  s.toList.length == 16 && s.toList.zipIdx.all fun (c, i) =>
    if i = 8 then c == 'T' else if i = 15 then c == 'Z' else c.isDigit

/-- `dhStampOf`. -/
def dhStampOf (snapPrefix key : String) : Option String :=
  match (cutPrefix snapPrefix key).bind (cutAt '/') with
  | some (stamp, _) => if isDHFolderStamp stamp then some stamp else none
  | none => none

/-- `S3ListedObject`. -/
structure S3ListedObject where
  key : String
  size : Int
  deriving DecidableEq, Repr

/-- `dhPruneFolder`. -/
structure DHPruneFolder where
  objects : List S3ListedObject
  complete : Bool
  deriving DecidableEq, Repr

/-- `dhPruneResult`. -/
structure DHPruneResult where
  snapshotsDeleted : Nat
  partsDeleted : Nat
  bytesFreed : Int
  deriving DecidableEq, Repr

/-- What `json.Unmarshal` makes of the two kinds of objects that pruning reads. -/
structure Unmarshal where
  latest : List UInt8 → Except String DHLatest
  index : List UInt8 → Except String DHIndex

def dhLatestFormat : Int := 1

/-- `parseDHLatest`. -/
def Unmarshal.parseDHLatest (u : Unmarshal) (data : List UInt8) : Except String DHLatest :=
  match u.latest data with
  | .error e => .error ("parse latest: " ++ e)
  | .ok l =>
    if l.format ≠ dhLatestFormat then
      .error ("latest format " ++ toString l.format ++ " is not supported (want " ++
        toString dhLatestFormat ++ ")")
    else if trimSpace l.index = "" then .error "latest names no index"
    else .ok l

/-- `parseDHIndex`. -/
def Unmarshal.parseDHIndex (u : Unmarshal) (data : List UInt8) : Except String DHIndex :=
  match u.index data with
  | .error e => .error ("parse index: " ++ e)
  | .ok ix =>
    if ix.format ≠ dhIndexFormat then
      .error ("index format " ++ toString ix.format ++ " is not supported (want " ++
        toString dhIndexFormat ++ ")")
    else .ok ix

/-! ## The store -/

/-- The errors of the calls of one prune: of the two listings, of each read and of the context
before it, and of the two deletions, each with the keys that went before it failed. -/
structure PruneFaults where
  listing : String → Option String
  reading : Nat → Option String
  cancelled : Nat → Option String
  folders : Option (String × (String → Bool))
  parts : Option (String × (String → Bool))

def PruneFaults.none : PruneFaults :=
  ⟨fun _ => .none, fun _ => .none, fun _ => .none, .none, .none⟩

/-- The objects whose keys begin with a text. -/
def listed (objects : GoMap (List UInt8)) (pre : String) : List S3ListedObject :=
  (objects.entries.filter fun o => (cutPrefix pre o.1).isSome).map fun o => ⟨o.1, o.2.length⟩

/-- `ListObjects`. -/
def listObjects (fault : Option String) (objects : GoMap (List UInt8)) (pre : String) :
    Except String (List S3ListedObject) :=
  match fault with
  | some e => .error ("list " ++ pre ++ ": " ++ e)
  | none => .ok (listed objects pre)

/-- `GetObject`. -/
def getObject (fault : Option String) (objects : GoMap (List UInt8)) (key : String) :
    Except String (Option (List UInt8)) :=
  match fault with
  | some e => .error e
  | none => .ok (objects.lookup key)

/-- A key that a request to delete can carry. -/
def sendable (key : String) : Bool := key != "" && !key.toList.any isControl

/-- `DeleteObjects`: a key that cannot be sent stops it before the first request. -/
def deleteObjects (fault : Option (String × (String → Bool))) (objects : GoMap (List UInt8))
    (del : List String) : Option String × GoMap (List UInt8) :=
  match del.find? (! sendable ·) with
  | some k =>
    (some ("s3 DeleteObjects: " ++ quote k ++ " is not a key that can be sent in a delete request"),
      objects)
  | none =>
    match fault with
    | none => (none, objects.deleteKeys (del.contains ·))
    | some (e, went) => (some e, objects.deleteKeys fun k => del.contains k && went k)

/-! ## The decision -/

/-- The error for a key that a listing should not have returned. -/
def outsideError (key pre : String) : String :=
  "the bucket listed " ++ quote key ++ " for " ++ pre ++
    ": it is outside the folder being pruned, so nothing was deleted"

/-- `groupDHFolders`. -/
def groupDHFolders (snapPrefix : String) (folders : GoMap DHPruneFolder) :
    List S3ListedObject → Except String (GoMap DHPruneFolder)
  | [] => .ok folders
  | o :: listed =>
    match cutPrefix snapPrefix o.key with
    | none => .error (outsideError o.key snapPrefix)
    | some rest =>
      match cutAt '/' rest with
      | none => groupDHFolders snapPrefix folders listed
      | some (stamp, inner) =>
        if isDHFolderStamp stamp then
          let f := (folders.lookup stamp).getD ⟨[], false⟩
          groupDHFolders snapPrefix
            (folders.insert stamp ⟨f.objects ++ [o], f.complete || inner == dhIndexFile⟩) listed
        else groupDHFolders snapPrefix folders listed

section

variable (u : Unmarshal) (faults : PruneFaults) (objects : GoMap (List UInt8))

/-- `currentDHIndexKey`. -/
def currentDHIndexKey (latestKey : String) : Except String String :=
  match getObject (faults.reading 0) objects latestKey with
  | .error e => .error ("read " ++ latestKey ++ ": " ++ e)
  | .ok none => .error (latestKey ++ " is not in the bucket, so nothing was deleted")
  | .ok (some data) =>
    match u.parseDHLatest data with
    | .error e => .error (latestKey ++ ": " ++ e)
    | .ok latest => latestIndexKey latestKey latest

/-- The stamps of the folders that have an index, the newest first. -/
def completeStamps (folders : GoMap DHPruneFolder) : List String :=
  (((folders.entries.filter fun e => e.2.complete).map fun e => e.1).insertionSort (· ≤ ·)).reverse

/-- `keptDHStamps`. -/
def keptDHStamps (snapPrefix : String) (folders : GoMap DHPruneFolder) (keep : Int)
    (latestIndex : String) : List String :=
  let kept := (completeStamps folders).take keep.toNat
  match dhStampOf snapPrefix latestIndex with
  | some stamp => kept.insert stamp
  | none => kept

/-- The index of a folder. -/
def folderIndexKey (snapPrefix stamp : String) : String :=
  snapPrefix ++ stamp ++ "/" ++ dhIndexFile

/-- The indexes that `keptDHParts` reads, in order. -/
def keptIndexKeys (snapPrefix : String) (folders : GoMap DHPruneFolder) (kept : List String)
    (latestIndex : String) : List String :=
  let complete := kept.filter fun stamp => ((folders.lookup stamp).map (·.complete)).getD false
  ((complete.map (folderIndexKey snapPrefix)).insert latestIndex).insertionSort (· ≤ ·)

/-- The loop of `keptDHParts`, with the number of the next read. -/
def keptDHParts : Nat → Finset String → List String → Except String (Finset String)
  | _, referenced, [] => .ok referenced
  | n, referenced, key :: keys =>
    match faults.cancelled n with
    | some e => .error e
    | none =>
      match getObject (faults.reading n) objects key with
      | .error e => .error ("cannot read " ++ key ++ ", so nothing was deleted: " ++ e)
      | .ok none => .error (key ++ " is not in the bucket, so nothing was deleted")
      | .ok (some data) =>
        match u.parseDHIndex data with
        | .error e => .error ("cannot use " ++ key ++ ", so nothing was deleted: " ++ e)
        | .ok ix => keptDHParts (n + 1) (referenced ∪ ix.partSet) keys

/-- The oldest of the stamps, as `oldDHFolders` looks for it. -/
def oldestStamp (kept : List String) : String :=
  kept.foldl (fun oldest stamp => if oldest = "" ∨ stamp < oldest then stamp else oldest) ""

/-- The folders that `oldDHFolders` returns. -/
def oldDHFolders (folders : GoMap DHPruneFolder) (kept : List String) : List DHPruneFolder :=
  let oldest := oldestStamp kept
  (folders.keys.insertionSort (· ≤ ·)).filterMap fun stamp =>
    (folders.lookup stamp).filter fun f =>
      !(kept.contains stamp || !f.complete && decide (oldest ≤ stamp))

/-- `orphanDHParts`, after the listing. -/
def orphanDHParts (partsPrefix : String) (referenced : Finset String) :
    List S3ListedObject → Except String (List S3ListedObject)
  | [] => .ok []
  | o :: listed =>
    match cutPrefix partsPrefix o.key with
    | none => .error (outsideError o.key partsPrefix)
    | some name =>
      if ¬ isSha256 name ∨ name ∈ referenced then orphanDHParts partsPrefix referenced listed
      else (orphanDHParts partsPrefix referenced listed).map (o :: ·)

/-- A key that is not below the prefix, or in neither of the two folders. -/
def outsideTree (keys : SnapshotKeys) (k : String) : Bool :=
  let inRoot := keys.root == "" || (cutPrefix (keys.root ++ "/") k).isSome
  let inTree := (cutPrefix keys.snapshotsPrefix k).isSome || (cutPrefix keys.partsPrefix k).isSome
  k == "" || !inRoot || !inTree

/-- `checkDHPruneKeys`. -/
def checkDHPruneKeys (keys : SnapshotKeys) (del : List String) : Except String Unit :=
  match del.find? (outsideTree keys) with
  | some k => .error ("refusing to delete " ++ quote k ++ ": it is not under the configured " ++
      "prefix's snapshots or parts folder, so nothing was deleted")
  | none => .ok ()

/-- What a prune is about to delete. -/
structure PrunePlan where
  folders : List DHPruneFolder
  parts : List S3ListedObject
  deriving DecidableEq, Repr

def PrunePlan.folderKeys (p : PrunePlan) : List String :=
  (p.folders.flatMap (·.objects)).map (·.key)

def PrunePlan.partKeys (p : PrunePlan) : List String := p.parts.map (·.key)

/-- `pruneDHSnapshots` up to its first deletion; there is nothing to decide on if nothing is
kept. -/
def planDHPrune (keys : SnapshotKeys) (keep : Int) : Except String (Option PrunePlan) :=
  if keep < 1 then .error ("keep must be at least 1, not " ++ toString keep)
  else do
    let snapPrefix := keys.snapshotsPrefix
    let listed ← listObjects (faults.listing snapPrefix) objects snapPrefix
    let folders ← groupDHFolders snapPrefix ∅ listed
    let latestIndex ← currentDHIndexKey u faults objects keys.latest
    let kept := keptDHStamps snapPrefix folders keep latestIndex
    if kept = [] then return none
    else
      let referenced ← keptDHParts u faults objects 1 ∅
        (keptIndexKeys snapPrefix folders kept latestIndex)
      let listedParts ← listObjects (faults.listing keys.partsPrefix) objects keys.partsPrefix
      let parts ← orphanDHParts keys.partsPrefix referenced listedParts
      let plan : PrunePlan := ⟨oldDHFolders folders kept, parts⟩
      checkDHPruneKeys keys plan.folderKeys
      checkDHPruneKeys keys plan.partKeys
      return some plan

/-- The bytes of the objects. -/
def bytesOf (listed : List S3ListedObject) : Int := (listed.map (·.size)).sum

/-- A deletion is only sent if there is something to delete. -/
def deleteListed (fault : Option (String × (String → Bool))) (del : List String) :
    Option String × GoMap (List UInt8) :=
  if del = [] then (none, objects) else deleteObjects fault objects del

/-- `pruneDHSnapshots`: its result and error, and the objects it leaves. -/
def pruneDHSnapshots (keys : SnapshotKeys) (keep : Int) :
    DHPruneResult × Option String × GoMap (List UInt8) :=
  match planDHPrune u faults objects keys keep with
  | .error e => (⟨0, 0, 0⟩, some e, objects)
  | .ok none => (⟨0, 0, 0⟩, none, objects)
  | .ok (some plan) =>
    let folderBytes := bytesOf (plan.folders.flatMap (·.objects))
    match deleteListed objects faults.folders plan.folderKeys with
    | (some e, left) => (⟨0, 0, 0⟩, some ("delete old snapshots: " ++ e), left)
    | (none, left) =>
      match deleteListed left faults.parts plan.partKeys with
      | (some e, left) =>
        (⟨plan.folders.length, 0, folderBytes⟩, some ("delete unreferenced parts: " ++ e), left)
      | (none, left) =>
        (⟨plan.folders.length, plan.parts.length, folderBytes + bytesOf plan.parts⟩, none, left)

end

/-! ## Folders -/

section

variable {snapPrefix stamp key : String}

theorem slash_of_isDHFolderStamp (h : isDHFolderStamp stamp = true) : '/' ∉ stamp.toList := by
  rw [isDHFolderStamp, Bool.and_eq_true, List.all_eq_true] at h
  intro hslash
  obtain ⟨i, hi⟩ := List.mem_iff_getElem?.1 hslash
  have hchar := h.2 ('/', i) (List.mk_mem_zipIdx_iff_getElem?.2 hi)
  dsimp only at hchar
  split at hchar
  · cases hchar
  · split at hchar
    · cases hchar
    · cases hchar

theorem dhStampOf_eq_some :
    dhStampOf snapPrefix key = some stamp ↔
      isDHFolderStamp stamp = true ∧ ∃ inner, key = snapPrefix ++ (stamp ++ ("/" ++ inner)) := by
  constructor
  · intro h
    unfold dhStampOf at h
    split at h
    · next before after hcut =>
      split at h
      · next hstamp =>
        cases h
        obtain ⟨rest, hrest, hcut⟩ := Option.bind_eq_some_iff.1 hcut
        rw [cutPrefix_eq_some] at hrest
        exact ⟨hstamp, after, by rw [hrest, (cutAt_eq_some hcut).1]; rfl⟩
      · cases h
    · cases h
  · rintro ⟨hstamp, inner, rfl⟩
    have hcut : cutAt '/' (stamp ++ ("/" ++ inner)) = some (stamp, inner) :=
      cutAt_append (slash_of_isDHFolderStamp hstamp) inner
    rw [dhStampOf, cutPrefix_append, Option.bind_some, hcut]
    exact if_pos hstamp

theorem dhStampOf_folderIndexKey (h : isDHFolderStamp stamp = true) :
    dhStampOf snapPrefix (folderIndexKey snapPrefix stamp) = some stamp :=
  dhStampOf_eq_some.2 ⟨h, dhIndexFile, by simp only [folderIndexKey, String.append_assoc]⟩

theorem folderIndexKey_eq : folderIndexKey snapPrefix stamp =
    snapPrefix ++ (stamp ++ ("/" ++ dhIndexFile)) := by
  simp only [folderIndexKey, String.append_assoc]

/-- The objects of a listing that are in a folder. -/
def inFolder (snapPrefix stamp : String) (listed : List S3ListedObject) : List S3ListedObject :=
  listed.filter fun o => decide (dhStampOf snapPrefix o.key = some stamp)

/-- What a listing adds to a folder. -/
def DHPruneFolder.add (snapPrefix stamp : String) (f : DHPruneFolder)
    (listed : List S3ListedObject) : DHPruneFolder :=
  ⟨f.objects ++ listed, f.complete || listed.any (·.key == folderIndexKey snapPrefix stamp)⟩

/-- A folder has the objects of the listing that are in it, behind those it had. -/
theorem lookup_groupDHFolders {listed : List S3ListedObject} {folders grouped : GoMap DHPruneFolder}
    (h : groupDHFolders snapPrefix folders listed = .ok grouped) (stamp : String) :
    grouped.lookup stamp =
      if inFolder snapPrefix stamp listed = [] then folders.lookup stamp
      else some (((folders.lookup stamp).getD ⟨[], false⟩).add snapPrefix stamp
        (inFolder snapPrefix stamp listed)) := by
  induction listed generalizing folders with
  | nil =>
    cases h
    exact (if_pos rfl).symm
  | cons o listed ih =>
    have hskip : dhStampOf snapPrefix o.key = none →
        inFolder snapPrefix stamp (o :: listed) = inFolder snapPrefix stamp listed := by
      intro hnone
      rw [inFolder, List.filter_cons_of_neg (by simp [hnone]), ← inFolder]
    unfold groupDHFolders at h
    split at h
    · cases h
    · next rest hrest =>
      split at h
      · next hcut =>
        have hnone : dhStampOf snapPrefix o.key = none := by
          rw [dhStampOf, hrest, Option.bind_some, hcut]
        rw [hskip hnone]
        exact ih h
      · next name inner hcut =>
        dsimp only at h
        split at h
        · next hname =>
          have hstamp : dhStampOf snapPrefix o.key = some name := by
            rw [dhStampOf, hrest, Option.bind_some, hcut]
            exact if_pos hname
          rw [ih h]
          by_cases heq : name = stamp
          · subst heq
            have hkey : (inner == dhIndexFile) = (o.key == folderIndexKey snapPrefix name) := by
              rw [cutPrefix_eq_some] at hrest
              rw [hrest, (cutAt_eq_some hcut).1, folderIndexKey_eq, Bool.eq_iff_iff, beq_iff_eq,
                beq_iff_eq, String.append_right_inj, String.append_right_inj]
              exact (String.append_right_inj _).symm
            have hcons : inFolder snapPrefix name (o :: listed) =
                o :: inFolder snapPrefix name listed :=
              List.filter_cons_of_pos (by simp [hstamp])
            rw [hcons, if_neg (List.cons_ne_nil _ _), AList.lookup_insert, hkey]
            split
            · next hnil => simp [hnil, DHPruneFolder.add]
            · simp [DHPruneFolder.add, Bool.or_assoc]
          · have hother : inFolder snapPrefix stamp (o :: listed) =
                inFolder snapPrefix stamp listed :=
              List.filter_cons_of_neg (by simp [hstamp, heq])
            rw [hother, AList.lookup_insert_ne (Ne.symm heq)]
        · next hname =>
          have hnone : dhStampOf snapPrefix o.key = none := by
            rw [dhStampOf, hrest, Option.bind_some, hcut]
            exact if_neg hname
          rw [hskip hnone]
          exact ih h

/-- A listing of a prefix can be sorted into folders. -/
theorem exists_groupDHFolders {listed : List S3ListedObject} (folders : GoMap DHPruneFolder)
    (h : ∀ o ∈ listed, (cutPrefix snapPrefix o.key).isSome = true) :
    ∃ grouped, groupDHFolders snapPrefix folders listed = .ok grouped := by
  induction listed generalizing folders with
  | nil => exact ⟨folders, rfl⟩
  | cons o listed ih =>
    obtain ⟨rest, hrest⟩ := Option.isSome_iff_exists.1 (h o List.mem_cons_self)
    have hlater : ∀ folders, ∃ grouped, groupDHFolders snapPrefix folders listed = .ok grouped :=
      fun folders => ih folders fun o ho => h o (List.mem_cons_of_mem _ ho)
    unfold groupDHFolders
    rw [hrest]
    dsimp only
    split
    · exact hlater _
    · split
      · exact hlater _
      · exact hlater _

end

/-! ## What a bucket holds -/

section

variable (u : Unmarshal) (objects : GoMap (List UInt8))

/-- The snapshot with this stamp has its index. -/
def HasIndex (snapPrefix stamp : String) : Prop :=
  isDHFolderStamp stamp = true ∧ (objects.lookup (folderIndexKey snapPrefix stamp)).isSome = true

/-- An object in the folder of this stamp. -/
def InFolder (snapPrefix stamp key : String) : Prop :=
  (objects.lookup key).isSome = true ∧ dhStampOf snapPrefix key = some stamp

/-- The index that can be read at a key. -/
def IndexAt (key : String) (ix : DHIndex) : Prop :=
  ∃ data, objects.lookup key = some data ∧ u.parseDHIndex data = .ok ix

/-- The snapshots to keep: one of the newest that have an index, or the one of the pointer. -/
def Retained (snapPrefix : String) (keep : Int) (latestIndex stamp : String) : Prop :=
  (HasIndex objects snapPrefix stamp ∧ ∀ newer : Finset String,
    (∀ s ∈ newer, HasIndex objects snapPrefix s ∧ stamp < s) → (newer.card : Int) < keep) ∨
  dhStampOf snapPrefix latestIndex = some stamp

/-- The indexes of the snapshots to keep, and the one that the pointer names. -/
def KeptIndex (snapPrefix : String) (keep : Int) (latestIndex key : String) : Prop :=
  key = latestIndex ∨ ∃ stamp, Retained objects snapPrefix keep latestIndex stamp ∧
    HasIndex objects snapPrefix stamp ∧ key = folderIndexKey snapPrefix stamp

/-- A part that one of these indexes names. -/
def Needed (snapPrefix : String) (keep : Int) (latestIndex sha256 : String) : Prop :=
  ∃ key ix, KeptIndex objects snapPrefix keep latestIndex key ∧ IndexAt u objects key ix ∧
    sha256 ∈ ix.partSet

/-- A folder to delete: one that is not kept, and has an index or is older than all that are. -/
def Dropped (snapPrefix : String) (keep : Int) (latestIndex stamp : String) : Prop :=
  ¬ Retained objects snapPrefix keep latestIndex stamp ∧
    (HasIndex objects snapPrefix stamp ∨
      ∀ s, Retained objects snapPrefix keep latestIndex s → stamp < s)

end

section

variable {u : Unmarshal} {objects : GoMap (List UInt8)} {snapPrefix stamp key : String}

theorem mem_listed {pre : String} {o : S3ListedObject} :
    o ∈ listed objects pre ↔ (cutPrefix pre o.key).isSome = true ∧
      ∃ data, objects.lookup o.key = some data ∧ o.size = data.length := by
  rw [listed, List.mem_map]
  constructor
  · rintro ⟨⟨key, data⟩, he, rfl⟩
    rw [List.mem_filter] at he
    exact ⟨he.2, data, AList.mem_lookup_iff.2 he.1, rfl⟩
  · rintro ⟨hpre, data, hdata, hsize⟩
    obtain ⟨key, size⟩ := o
    cases hsize
    exact ⟨⟨key, data⟩, List.mem_filter.2 ⟨AList.mem_lookup_iff.1 hdata, hpre⟩, rfl⟩

theorem cutPrefix_of_dhStampOf (h : dhStampOf snapPrefix key = some stamp) :
    (cutPrefix snapPrefix key).isSome = true := by
  obtain ⟨-, inner, rfl⟩ := dhStampOf_eq_some.1 h
  rw [cutPrefix_append]
  rfl

theorem mem_inFolder : (∃ o ∈ inFolder snapPrefix stamp (listed objects snapPrefix), o.key = key) ↔
    InFolder objects snapPrefix stamp key := by
  constructor
  · rintro ⟨o, ho, rfl⟩
    rw [inFolder, List.mem_filter, mem_listed, decide_eq_true_eq] at ho
    obtain ⟨⟨-, data, hdata, -⟩, hstamp⟩ := ho
    exact ⟨by rw [hdata]; rfl, hstamp⟩
  · rintro ⟨hsome, hstamp⟩
    obtain ⟨data, hdata⟩ := Option.isSome_iff_exists.1 hsome
    refine ⟨⟨key, data.length⟩, ?_, rfl⟩
    rw [inFolder, List.mem_filter, mem_listed, decide_eq_true_eq]
    exact ⟨⟨cutPrefix_of_dhStampOf hstamp, data, hdata, rfl⟩, hstamp⟩

/-- An index is an object of its folder. -/
theorem inFolder_index_iff : HasIndex objects snapPrefix stamp ↔
    InFolder objects snapPrefix stamp (folderIndexKey snapPrefix stamp) := by
  constructor
  · exact fun h => ⟨h.2, dhStampOf_folderIndexKey h.1⟩
  · exact fun h => ⟨(dhStampOf_eq_some.1 h.2).1, h.1⟩

/-- The folders of a bucket, sorted by stamp. -/
structure Grouped (objects : GoMap (List UInt8)) (snapPrefix : String)
    (folders : GoMap DHPruneFolder) : Prop where
  grouped : groupDHFolders snapPrefix ∅ (listed objects snapPrefix) = .ok folders

variable {folders : GoMap DHPruneFolder}

theorem Grouped.lookup (h : Grouped objects snapPrefix folders) (stamp : String) :
    folders.lookup stamp =
      if inFolder snapPrefix stamp (listed objects snapPrefix) = [] then none
      else some (DHPruneFolder.add snapPrefix stamp ⟨[], false⟩
        (inFolder snapPrefix stamp (listed objects snapPrefix))) :=
  lookup_groupDHFolders h.grouped stamp

theorem Grouped.mem_objects (h : Grouped objects snapPrefix folders) {f : DHPruneFolder}
    (hf : folders.lookup stamp = some f) :
    key ∈ f.objects.map (·.key) ↔ InFolder objects snapPrefix stamp key := by
  rw [h.lookup] at hf
  split at hf
  · cases hf
  · cases hf
    rw [← mem_inFolder, List.mem_map]
    rfl

theorem Grouped.complete_iff (h : Grouped objects snapPrefix folders) {f : DHPruneFolder}
    (hf : folders.lookup stamp = some f) :
    f.complete = true ↔ HasIndex objects snapPrefix stamp := by
  rw [inFolder_index_iff, ← mem_inFolder]
  rw [h.lookup] at hf
  split at hf
  · cases hf
  · cases hf
    simp [DHPruneFolder.add]

theorem Grouped.exists_lookup (h : Grouped objects snapPrefix folders) :
    (∃ f, folders.lookup stamp = some f) ↔ ∃ key, InFolder objects snapPrefix stamp key := by
  rw [h.lookup]
  constructor
  · rintro ⟨f, hf⟩
    split at hf
    · cases hf
    · next hne =>
      obtain ⟨o, ho⟩ := List.exists_mem_of_ne_nil _ hne
      exact ⟨o.key, mem_inFolder.1 ⟨o, ho, rfl⟩⟩
  · rintro ⟨key, hkey⟩
    obtain ⟨o, ho, -⟩ := mem_inFolder.2 hkey
    rw [if_neg (List.ne_nil_of_mem ho)]
    exact ⟨_, rfl⟩

/-! ## The newest -/

/-- Of a list from the greatest to the least, the first are those with few greater ones. -/
theorem mem_take_iff {α : Type} [LinearOrder α] {l : List α} (h : l.Pairwise (· > ·)) (n : Nat)
    (a : α) : a ∈ l.take n ↔ a ∈ l ∧ (l.filter (a < ·)).length < n := by
  induction l generalizing n with
  | nil => simp
  | cons b l ih =>
    obtain ⟨hb, hl⟩ := List.pairwise_cons.1 h
    cases n with
    | zero => simp
    | succ n =>
      rw [List.take_succ_cons, List.mem_cons, ih hl]
      by_cases heq : a = b
      · subst heq
        have hnone : (a :: l).filter (a < ·) = [] := by
          rw [List.filter_eq_nil_iff, List.forall_mem_cons]
          exact ⟨by simp, fun c hc => by simpa using (hb c hc).le⟩
        rw [hnone]
        simp
      · rw [List.mem_cons, or_iff_right heq, or_iff_right heq]
        apply and_congr_right
        intro ha
        rw [List.filter_cons_of_pos (by simpa using hb a ha), List.length_cons,
          Nat.succ_lt_succ_iff]

theorem Grouped.mem_completeStamps (h : Grouped objects snapPrefix folders) :
    stamp ∈ completeStamps folders ↔ HasIndex objects snapPrefix stamp := by
  rw [completeStamps, List.mem_reverse, List.mem_insertionSort, List.mem_map]
  constructor
  · rintro ⟨⟨s, f⟩, he, rfl⟩
    rw [List.mem_filter] at he
    exact (h.complete_iff (AList.mem_lookup_iff.2 he.1)).1 he.2
  · intro hindex
    obtain ⟨f, hf⟩ := h.exists_lookup.2 ⟨_, inFolder_index_iff.1 hindex⟩
    exact ⟨⟨stamp, f⟩, List.mem_filter.2 ⟨AList.mem_lookup_iff.1 hf, (h.complete_iff hf).2 hindex⟩,
      rfl⟩

theorem pairwise_completeStamps (folders : GoMap DHPruneFolder) :
    (completeStamps folders).Pairwise (· > ·) := by
  have hnodup : ((folders.entries.filter fun e => e.2.complete).map fun e => e.1).Nodup :=
    List.Nodup.sublist (List.filter_sublist.map _) folders.nodupKeys
  rw [completeStamps, List.pairwise_reverse]
  have hsorted := List.pairwise_insertionSort (· ≤ ·)
    ((folders.entries.filter fun e => e.2.complete).map fun e => e.1)
  have hne := ((List.perm_insertionSort (· ≤ ·) _).nodup_iff).2 hnodup
  exact (hsorted.and hne).imp fun h => lt_of_le_of_ne h.1 h.2

/-- The stamps that are kept are those of the snapshots to keep. -/
theorem Grouped.mem_keptDHStamps (h : Grouped objects snapPrefix folders) {keep : Int}
    (hkeep : 1 ≤ keep) {latestIndex : String} :
    stamp ∈ keptDHStamps snapPrefix folders keep latestIndex ↔
      Retained objects snapPrefix keep latestIndex stamp := by
  have hnewest : stamp ∈ (completeStamps folders).take keep.toNat ↔
      HasIndex objects snapPrefix stamp ∧ ∀ newer : Finset String,
        (∀ s ∈ newer, HasIndex objects snapPrefix s ∧ stamp < s) → (newer.card : Int) < keep := by
    have hsorted := pairwise_completeStamps folders
    rw [mem_take_iff hsorted, h.mem_completeStamps]
    apply and_congr_right
    intro _
    have hnodup : ((completeStamps folders).filter (stamp < ·)).Nodup :=
      (hsorted.imp fun hgt => ne_of_gt hgt).sublist List.filter_sublist
    have hcard := List.toFinset_card_of_nodup hnodup
    constructor
    · intro hlt newer hnewer
      have hsub : newer ⊆ ((completeStamps folders).filter (stamp < ·)).toFinset := by
        intro s hs
        rw [List.mem_toFinset, List.mem_filter, h.mem_completeStamps, decide_eq_true_eq]
        exact hnewer s hs
      have hle := Finset.card_le_card hsub
      omega
    · intro hall
      have hlt := hall ((completeStamps folders).filter (stamp < ·)).toFinset fun s hs => by
        rwa [List.mem_toFinset, List.mem_filter, h.mem_completeStamps, decide_eq_true_eq] at hs
      omega
  unfold keptDHStamps Retained
  dsimp only
  split
  · next latest hlatest =>
    rw [List.mem_insert_iff, hnewest, hlatest, Option.some.injEq, or_comm, @eq_comm _ stamp]
  · next hlatest =>
    rw [hnewest, hlatest]
    simp

theorem Grouped.mem_keptIndexKeys (h : Grouped objects snapPrefix folders) {keep : Int}
    (hkeep : 1 ≤ keep) {latestIndex : String} :
    key ∈ keptIndexKeys snapPrefix folders (keptDHStamps snapPrefix folders keep latestIndex)
        latestIndex ↔ KeptIndex objects snapPrefix keep latestIndex key := by
  rw [keptIndexKeys, List.mem_insertionSort, List.mem_insert_iff, KeptIndex, List.mem_map]
  apply or_congr_right
  constructor
  · rintro ⟨s, hs, rfl⟩
    rw [List.mem_filter, h.mem_keptDHStamps hkeep] at hs
    refine ⟨s, hs.1, ?_, rfl⟩
    cases hf : folders.lookup s with
    | none =>
      rw [hf] at hs
      cases hs.2
    | some f =>
      rw [hf] at hs
      exact (h.complete_iff hf).1 hs.2
  · rintro ⟨s, hkept, hindex, rfl⟩
    obtain ⟨f, hf⟩ := h.exists_lookup.2 ⟨_, inFolder_index_iff.1 hindex⟩
    refine ⟨s, List.mem_filter.2 ⟨(h.mem_keptDHStamps hkeep).2 hkept, ?_⟩, rfl⟩
    rw [hf]
    exact (h.complete_iff hf).2 hindex

/-! ## Parts -/

/-- The parts that the kept indexes name, once all of them could be read. -/
theorem keptDHParts_eq_ok {faults : PruneFaults} {n : Nat} {referenced all : Finset String}
    {keys : List String} (h : keptDHParts u faults objects n referenced keys = .ok all) :
    (∀ key ∈ keys, ∃ ix, IndexAt u objects key ix) ∧
      ∀ sha256, sha256 ∈ all ↔ sha256 ∈ referenced ∨
        ∃ key ix, key ∈ keys ∧ IndexAt u objects key ix ∧ sha256 ∈ ix.partSet := by
  induction keys generalizing n referenced with
  | nil =>
    cases h
    simp
  | cons key keys ih =>
    unfold keptDHParts at h
    split at h
    · cases h
    · split at h
      · cases h
      · cases h
      · next data hget =>
        have hdata : objects.lookup key = some data := by
          unfold getObject at hget
          split at hget
          · cases hget
          · exact Except.ok.inj hget
        split at h
        · cases h
        · next ix hix =>
          obtain ⟨hread, hall⟩ := ih h
          refine ⟨List.forall_mem_cons.2 ⟨⟨ix, data, hdata, hix⟩, hread⟩, fun sha256 => ?_⟩
          rw [hall, Finset.mem_union]
          constructor
          · rintro ((hold | hpart) | ⟨key', ix', hkey, hat, hpart⟩)
            · exact .inl hold
            · exact .inr ⟨key, ix, List.mem_cons_self, ⟨data, hdata, hix⟩, hpart⟩
            · exact .inr ⟨key', ix', List.mem_cons_of_mem _ hkey, hat, hpart⟩
          · rintro (hold | ⟨key', ix', hkey, ⟨data', hdata', hix'⟩, hpart⟩)
            · exact .inl (.inl hold)
            · rw [List.mem_cons] at hkey
              obtain rfl | hkey := hkey
              · rw [hdata] at hdata'
                cases hdata'
                rw [hix] at hix'
                cases hix'
                exact .inl (.inr hpart)
              · exact .inr ⟨key', ix', hkey, ⟨data', hdata', hix'⟩, hpart⟩

/-- Without a failing read, indexes that can be read are all read. -/
theorem exists_keptDHParts (n : Nat) (referenced : Finset String) {keys : List String}
    (h : ∀ key ∈ keys, ∃ ix, IndexAt u objects key ix) :
    ∃ all, keptDHParts u .none objects n referenced keys = .ok all := by
  induction keys generalizing n referenced with
  | nil => exact ⟨referenced, rfl⟩
  | cons key keys ih =>
    obtain ⟨ix, data, hdata, hix⟩ := h key List.mem_cons_self
    obtain ⟨all, hall⟩ := ih (n + 1) (referenced ∪ ix.partSet) fun key' hkey =>
      h key' (List.mem_cons_of_mem _ hkey)
    refine ⟨all, ?_⟩
    unfold keptDHParts
    simp only [PruneFaults.none, getObject, hdata, hix]
    exact hall

/-- The parts to delete are those listed that are named like one and not referenced. -/
theorem mem_orphanDHParts {partsPrefix : String} {referenced : Finset String}
    {list orphans : List S3ListedObject}
    (h : orphanDHParts partsPrefix referenced list = .ok orphans) {o : S3ListedObject} :
    o ∈ orphans ↔ o ∈ list ∧ ∃ sha256, o.key = partsPrefix ++ sha256 ∧
      isSha256 sha256 = true ∧ sha256 ∉ referenced := by
  induction list generalizing orphans with
  | nil =>
    cases h
    simp
  | cons o' list ih =>
    unfold orphanDHParts at h
    split at h
    · cases h
    · next name hname =>
      rw [cutPrefix_eq_some] at hname
      split at h
      · next hkeep =>
        rw [ih h, List.mem_cons]
        constructor
        · exact fun ho => ⟨.inr ho.1, ho.2⟩
        · rintro ⟨rfl | ho, sha256, hkey, hsha, hfree⟩
          · rw [hname, String.append_right_inj] at hkey
            subst hkey
            exact absurd hkeep (by simp [hsha, hfree])
          · exact ⟨ho, sha256, hkey, hsha, hfree⟩
      · next hgo =>
        rw [not_or, not_not] at hgo
        cases hrest : orphanDHParts partsPrefix referenced list with
        | error e =>
          rw [hrest] at h
          cases h
        | ok rest =>
          rw [hrest] at h
          cases h
          rw [List.mem_cons, List.mem_cons, ih hrest]
          constructor
          · rintro (rfl | ho)
            · exact ⟨.inl rfl, name, hname, hgo⟩
            · exact ⟨.inr ho.1, ho.2⟩
          · rintro ⟨rfl | ho, hfree⟩
            · exact .inl rfl
            · exact .inr ⟨ho, hfree⟩

theorem exists_orphanDHParts {partsPrefix : String} (referenced : Finset String)
    {list : List S3ListedObject} (h : ∀ o ∈ list, (cutPrefix partsPrefix o.key).isSome = true) :
    ∃ orphans, orphanDHParts partsPrefix referenced list = .ok orphans := by
  induction list with
  | nil => exact ⟨[], rfl⟩
  | cons o list ih =>
    obtain ⟨orphans, horphans⟩ := ih fun o' ho => h o' (List.mem_cons_of_mem _ ho)
    obtain ⟨name, hname⟩ := Option.isSome_iff_exists.1 (h o List.mem_cons_self)
    unfold orphanDHParts
    rw [hname, horphans]
    dsimp only
    split
    · exact ⟨orphans, rfl⟩
    · exact ⟨o :: orphans, rfl⟩

/-! ## Old folders -/

theorem isDHFolderStamp_of_retained {keep : Int} {latestIndex : String}
    (h : Retained objects snapPrefix keep latestIndex stamp) : isDHFolderStamp stamp = true := by
  obtain h | h := h
  · exact h.1.1
  · exact (dhStampOf_eq_some.1 h).1

theorem ne_empty_of_isDHFolderStamp (h : isDHFolderStamp stamp = true) : stamp ≠ "" := by
  rintro rfl
  revert h
  decide

/-- The step of `oldestStamp`, from a stamp on. -/
theorem foldl_oldest {kept : List String} (hkept : ∀ s ∈ kept, s ≠ "") {first : String}
    (hfirst : first ≠ "") : ∃ oldest ∈ first :: kept, (∀ s ∈ first :: kept, oldest ≤ s) ∧
      kept.foldl (fun oldest stamp => if oldest = "" ∨ stamp < oldest then stamp else oldest)
        first = oldest := by
  induction kept generalizing first with
  | nil => exact ⟨first, by simp, by simp, rfl⟩
  | cons s kept ih =>
    obtain ⟨hs, hkept⟩ := List.forall_mem_cons.1 hkept
    rw [List.foldl_cons]
    by_cases hlt : s < first
    · obtain ⟨oldest, hmem, hle, hfold⟩ := ih hkept hs
      refine ⟨oldest, List.mem_cons_of_mem _ hmem, ?_, ?_⟩
      · exact List.forall_mem_cons.2 ⟨(hle s List.mem_cons_self).trans hlt.le, hle⟩
      · rw [if_pos (.inr hlt)]
        exact hfold
    · obtain ⟨oldest, hmem, hle, hfold⟩ := ih hkept hfirst
      have hleFirst := hle first List.mem_cons_self
      refine ⟨oldest, ?_, ?_, ?_⟩
      · rw [List.mem_cons] at hmem ⊢
        exact hmem.imp_right (List.mem_cons_of_mem _)
      · exact List.forall_mem_cons.2 ⟨hleFirst, List.forall_mem_cons.2
          ⟨hleFirst.trans (not_lt.1 hlt), fun s' hs' => hle s' (List.mem_cons_of_mem _ hs')⟩⟩
      · rw [if_neg (not_or.2 ⟨hfirst, hlt⟩)]
        exact hfold

/-- No stamp is before the oldest one exactly if one is kept that is not after it. -/
theorem oldestStamp_le_iff {kept : List String} (hkept : ∀ s ∈ kept, s ≠ "") (hne : kept ≠ [])
    (stamp : String) : oldestStamp kept ≤ stamp ↔ ∃ s ∈ kept, s ≤ stamp := by
  obtain ⟨first, kept, rfl⟩ := List.exists_cons_of_ne_nil hne
  obtain ⟨hfirst, hrest⟩ := List.forall_mem_cons.1 hkept
  obtain ⟨oldest, hmem, hle, hfold⟩ := foldl_oldest hrest hfirst
  rw [oldestStamp, List.foldl_cons, if_pos (.inl rfl), hfold]
  exact ⟨fun h => ⟨oldest, hmem, h⟩, fun ⟨s, hs, h⟩ => (hle s hs).trans h⟩

/-- An object that goes with its folder. -/
def InDropped (objects : GoMap (List UInt8)) (snapPrefix : String) (keep : Int)
    (latestIndex key : String) : Prop :=
  ∃ stamp, InFolder objects snapPrefix stamp key ∧
    Dropped objects snapPrefix keep latestIndex stamp

theorem Grouped.mem_oldDHFolders (h : Grouped objects snapPrefix folders) {keep : Int}
    (hkeep : 1 ≤ keep) {latestIndex : String}
    (hne : keptDHStamps snapPrefix folders keep latestIndex ≠ []) :
    key ∈ ((oldDHFolders folders (keptDHStamps snapPrefix folders keep latestIndex)).flatMap
      (·.objects)).map (·.key) ↔ InDropped objects snapPrefix keep latestIndex key := by
  have hstamps : ∀ s ∈ keptDHStamps snapPrefix folders keep latestIndex, s ≠ "" := fun s hs =>
    ne_empty_of_isDHFolderStamp (isDHFolderStamp_of_retained ((h.mem_keptDHStamps hkeep).1 hs))
  have hdropped : ∀ {stamp f}, folders.lookup stamp = some f →
      ((!((keptDHStamps snapPrefix folders keep latestIndex).contains stamp || !f.complete &&
        decide (oldestStamp (keptDHStamps snapPrefix folders keep latestIndex) ≤ stamp))) = true ↔
          Dropped objects snapPrefix keep latestIndex stamp) := by
    intro stamp f hf
    rw [Bool.not_eq_true', Bool.or_eq_false_iff, Bool.and_eq_false_imp, Bool.not_eq_true',
      decide_eq_false_iff_not, oldestStamp_le_iff hstamps hne, Dropped, ← h.complete_iff hf,
      ← Bool.not_eq_true, List.contains_iff_mem, h.mem_keptDHStamps hkeep]
    apply and_congr_right
    intro _
    simp only [h.mem_keptDHStamps hkeep, not_exists, not_and, not_le]
    cases f.complete <;> simp
  rw [List.map_flatMap, List.mem_flatMap, oldDHFolders]
  constructor
  · rintro ⟨f, hf, hkey⟩
    obtain ⟨stamp, -, hfilter⟩ := List.mem_filterMap.1 hf
    obtain ⟨hlookup, hold⟩ := Option.filter_eq_some_iff.1 hfilter
    exact ⟨stamp, (h.mem_objects hlookup).1 hkey, (hdropped hlookup).1 hold⟩
  · rintro ⟨stamp, hin, hold⟩
    obtain ⟨f, hf⟩ := h.exists_lookup.2 ⟨key, hin⟩
    refine ⟨f, List.mem_filterMap.2 ⟨stamp, ?_, ?_⟩, (h.mem_objects hf).2 hin⟩
    · rw [List.mem_insertionSort]
      exact AList.mem_keys.1 (AList.lookup_isSome.1 (by rw [hf]; rfl))
    · exact Option.filter_eq_some_iff.2 ⟨hf, (hdropped hf).2 hold⟩

/-! ## The plan -/

/-- What a prune has found out when it is about to delete. -/
structure Surveyed (u : Unmarshal) (objects : GoMap (List UInt8)) (keys : SnapshotKeys)
    (keep : Int) (latestIndex : String) : Prop where
  pointer : currentDHIndexKey u .none objects keys.latest = .ok latestIndex
  readable : ∀ key, KeptIndex objects keys.snapshotsPrefix keep latestIndex key →
    ∃ ix, IndexAt u objects key ix
  retained : ∃ stamp, Retained objects keys.snapshotsPrefix keep latestIndex stamp

/-- A part that no kept index names. -/
def Unneeded (u : Unmarshal) (objects : GoMap (List UInt8)) (keys : SnapshotKeys) (keep : Int)
    (latestIndex key : String) : Prop :=
  (objects.lookup key).isSome = true ∧ ∃ sha256, key = keys.partKey sha256 ∧
    isSha256 sha256 = true ∧ ¬ Needed u objects keys.snapshotsPrefix keep latestIndex sha256

variable {keys : SnapshotKeys} {keep : Int} {faults : PruneFaults}

/-- The plan of a prune: what it deletes, for what the pointer names. -/
structure Planned (u : Unmarshal) (objects : GoMap (List UInt8)) (keys : SnapshotKeys)
    (keep : Int) (plan : PrunePlan) (latestIndex : String) : Prop where
  surveyed : Surveyed u objects keys keep latestIndex
  mem_folderKeys : ∀ key, key ∈ plan.folderKeys ↔
    InDropped objects keys.snapshotsPrefix keep latestIndex key
  mem_partKeys : ∀ key, key ∈ plan.partKeys ↔ Unneeded u objects keys keep latestIndex key

theorem listObjects_eq_ok {fault : Option String} {pre : String} {list : List S3ListedObject}
    (h : listObjects fault objects pre = .ok list) : list = listed objects pre := by
  unfold listObjects at h
  split at h
  · cases h
  · exact (Except.ok.inj h).symm

theorem getObject_eq_ok {fault : Option String} {found : Option (List UInt8)}
    (h : getObject fault objects key = .ok found) : objects.lookup key = found := by
  unfold getObject at h
  split at h
  · cases h
  · exact Except.ok.inj h

/-- A pointer that was read is the one in the bucket. -/
theorem currentDHIndexKey_of_ok {latestKey latestIndex : String}
    (h : currentDHIndexKey u faults objects latestKey = .ok latestIndex) :
    currentDHIndexKey u .none objects latestKey = .ok latestIndex := by
  unfold currentDHIndexKey at h
  split at h
  · cases h
  · cases h
  · next data hget =>
    unfold currentDHIndexKey
    simp only [PruneFaults.none, getObject, getObject_eq_ok hget]
    exact h

/-- The keys of the orphans. -/
theorem mem_partKeys {referenced : Finset String} {orphans : List S3ListedObject}
    {latestIndex : String}
    (h : orphanDHParts keys.partsPrefix referenced (listed objects keys.partsPrefix) = .ok orphans)
    (hreferenced : ∀ sha256, sha256 ∈ referenced ↔
      Needed u objects keys.snapshotsPrefix keep latestIndex sha256) :
    key ∈ orphans.map (·.key) ↔ Unneeded u objects keys keep latestIndex key := by
  rw [List.mem_map]
  constructor
  · rintro ⟨o, ho, rfl⟩
    obtain ⟨hlisted, sha256, hkey, hsha, hfree⟩ := (mem_orphanDHParts h).1 ho
    obtain ⟨-, data, hdata, -⟩ := mem_listed.1 hlisted
    exact ⟨by rw [hdata]; rfl, sha256, hkey, hsha, fun hneeded => hfree ((hreferenced _).2 hneeded)⟩
  · rintro ⟨hsome, sha256, rfl, hsha, hfree⟩
    obtain ⟨data, hdata⟩ := Option.isSome_iff_exists.1 hsome
    refine ⟨⟨keys.partKey sha256, data.length⟩, (mem_orphanDHParts h).2 ⟨mem_listed.2
      ⟨?_, data, hdata, rfl⟩, sha256, rfl, hsha, fun hin => hfree ((hreferenced _).1 hin)⟩, rfl⟩
    rw [SnapshotKeys.partKey, cutPrefix_append]
    rfl

/-- The plan that a prune comes to, whatever did not fail on the way. -/
theorem planned_of_planDHPrune {plan : PrunePlan}
    (h : planDHPrune u faults objects keys keep = .ok (some plan)) :
    ∃ latestIndex, Planned u objects keys keep plan latestIndex := by
  unfold planDHPrune at h
  split at h
  · cases h
  · next hkeep =>
    replace hkeep : 1 ≤ keep := not_lt.1 hkeep
    obtain ⟨list, hlist, h⟩ := except_bind_eq_ok.1 h
    obtain ⟨folders, hfolders, h⟩ := except_bind_eq_ok.1 h
    obtain ⟨latestIndex, hlatest, h⟩ := except_bind_eq_ok.1 h
    rw [listObjects_eq_ok hlist] at hfolders
    have hgrouped : Grouped objects keys.snapshotsPrefix folders := ⟨hfolders⟩
    dsimp only at h
    split at h
    · cases h
    · next hkept =>
      obtain ⟨referenced, hreferenced, h⟩ := except_bind_eq_ok.1 h
      obtain ⟨listParts, hlistParts, h⟩ := except_bind_eq_ok.1 h
      obtain ⟨parts, hparts, h⟩ := except_bind_eq_ok.1 h
      obtain ⟨-, -, h⟩ := except_bind_eq_ok.1 h
      obtain ⟨-, -, h⟩ := except_bind_eq_ok.1 h
      cases h
      rw [listObjects_eq_ok hlistParts] at hparts
      obtain ⟨hread, hall⟩ := keptDHParts_eq_ok hreferenced
      refine ⟨latestIndex, ⟨currentDHIndexKey_of_ok hlatest, ?_, ?_⟩, ?_, ?_⟩
      · exact fun key hkey => hread key ((hgrouped.mem_keptIndexKeys hkeep).2 hkey)
      · obtain ⟨stamp, hstamp⟩ := List.exists_mem_of_ne_nil _ hkept
        exact ⟨stamp, (hgrouped.mem_keptDHStamps hkeep).1 hstamp⟩
      · exact fun key => hgrouped.mem_oldDHFolders hkeep hkept
      · refine fun key => mem_partKeys hparts fun sha256 => ?_
        rw [hall, or_iff_right (by simp)]
        simp only [hgrouped.mem_keptIndexKeys hkeep]
        rfl

/-! ## The layout -/

theorem isSome_cutPrefix {pre s : String} :
    (cutPrefix pre s).isSome = true ↔ pre.toList <+: s.toList := by
  rw [cutPrefix, Option.isSome_ite, List.isPrefixOf_iff_prefix]

section

variable {ps toks : List String} {stampOf : String}

theorem Laid.snapshotsPrefix_eq {bs : List String} (h : Laid ps bs stampOf keys)
    (hbs : Cleaned false bs.reverse) (hstamp : Plain stampOf) :
    keys.snapshotsPrefix = joinSlash (bs ++ ["snapshots"]) ++ "/" := by
  have hnames := plain_cons (show Plain "snapshots" by decide) (plain_cons hstamp plain_nil)
  have hdir : dir keys.snapshotDir = text false (bs ++ ["snapshots"]) := by
    rw [h.snapshotDir]
    have hcleaned := hbs.append_plain hnames
    have hsplit : bs ++ ["snapshots", stampOf] = (bs ++ ["snapshots"]) ++ [stampOf] := by simp
    rw [hsplit] at hcleaned ⊢
    exact dir_joinSlash hcleaned
  rw [SnapshotKeys.snapshotsPrefix, hdir, text]
  simp

/-- The parts of a text with a trailing slash in front. -/
theorem parts_joinSlash_append {ns : List String} (hne : ns ≠ []) (h : ∀ q ∈ ns, '/' ∉ q.toList)
    (t : String) : parts (joinSlash ns ++ "/" ++ t) = ns ++ parts t := by
  rw [parts_append, parts_joinSlash hne h]

/-- The hash of a part is one name. -/
theorem parts_of_isSha256 {sha256 : String} (h : isSha256 sha256 = true) :
    parts sha256 = [sha256] := by
  have hslash : '/' ∉ sha256.toList := by
    rw [isSha256, Bool.and_eq_true, List.all_eq_true] at h
    intro hmem
    exact absurd (h.2 _ hmem) (by decide)
  rw [parts, split, splitChars_of_not_mem hslash, List.map_singleton, String.ofList_toList]

theorem Laid.parts_partKey {bs : List String} (h : Laid ps bs stampOf keys)
    (hps : Cleaned false ps.reverse) {sha256 : String} (hsha : isSha256 sha256 = true) :
    parts (keys.partKey sha256) = ps ++ ["parts", sha256] := by
  have hcleaned := hps.append_plain (plain_cons (show Plain "parts" by decide) plain_nil)
  rw [SnapshotKeys.partKey, h.partsPrefix, parts_joinSlash_append (by simp) hcleaned.slash,
    parts_of_isSha256 hsha, List.append_assoc]
  rfl

/-- An object in a folder of a layout is deeper in the bucket than the parts are. -/
theorem Laid.ne_partKey (h : Laid ps (ps ++ toks) stampOf keys) (hps : Cleaned false ps.reverse)
    (hbs : Cleaned false (ps ++ toks).reverse) (hplain : Plain stampOf)
    (hkey : dhStampOf keys.snapshotsPrefix key = some stamp) {ks : List String} {at' : String}
    {other : SnapshotKeys} (hother : Laid ps ks at' other) {sha256 : String}
    (hsha : isSha256 sha256 = true) : key ≠ other.partKey sha256 := by
  obtain ⟨hstamp, inner, rfl⟩ := dhStampOf_eq_some.1 hkey
  intro heq
  have hcleaned := hbs.append_plain (plain_cons (show Plain "snapshots" by decide) plain_nil)
  have hinner : parts (stamp ++ ("/" ++ inner)) = parts stamp ++ parts inner := by
    rw [← String.append_assoc, parts_append]
  have hlength := congrArg (fun s => (parts s).length) heq
  simp only [hother.parts_partKey hps hsha, h.snapshotsPrefix_eq hbs hplain,
    parts_joinSlash_append (List.append_ne_nil_of_right_ne_nil _ (List.cons_ne_nil _ _))
      hcleaned.slash, hinner, List.length_append, List.length_cons, List.length_nil] at hlength
  have hnonempty := List.length_pos_of_ne_nil (parts_ne_nil stamp)
  have hrest := List.length_pos_of_ne_nil (parts_ne_nil inner)
  omega

/-- The pointer is in no folder of its layout. -/
theorem Laid.latest_not_in_folder {bs : List String} (h : Laid ps bs stampOf keys)
    (hbs : Cleaned false bs.reverse) (hplain : Plain stampOf) :
    dhStampOf keys.snapshotsPrefix keys.latest ≠ some stamp := by
  intro hkey
  obtain ⟨hstamp, inner, heq⟩ := dhStampOf_eq_some.1 hkey
  have hcleaned := hbs.append_plain (plain_cons (show Plain "snapshots" by decide) plain_nil)
  have hlatest := hbs.append_plain (plain_cons (show Plain "latest.json" by decide) plain_nil)
  have hinner : parts (stamp ++ ("/" ++ inner)) = parts stamp ++ parts inner := by
    rw [← String.append_assoc, parts_append]
  have hlength := congrArg (fun s => (parts s).length) heq
  simp only [h.latest, parts_joinSlash (List.append_ne_nil_of_right_ne_nil _
    (List.cons_ne_nil _ _)) hlatest.slash, h.snapshotsPrefix_eq hbs hplain,
    parts_joinSlash_append (List.append_ne_nil_of_right_ne_nil _ (List.cons_ne_nil _ _))
      hcleaned.slash, hinner, List.length_append, List.length_cons, List.length_nil] at hlength
  have hrest := List.length_pos_of_ne_nil (parts_ne_nil inner)
  omega

/-- The pointer is not a part. -/
theorem Laid.latest_ne_partKey {bs : List String} (h : Laid ps bs stampOf keys)
    (hps : Cleaned false ps.reverse) (hbs : Cleaned false bs.reverse) {sha256 : String}
    (hsha : isSha256 sha256 = true) : keys.latest ≠ keys.partKey sha256 := by
  intro heq
  have hlatest := hbs.append_plain (plain_cons (show Plain "latest.json" by decide) plain_nil)
  have hparts := congrArg parts heq
  rw [h.parts_partKey hps hsha, h.latest, parts_joinSlash (by simp) hlatest.slash] at hparts
  have hlast := congrArg List.getLast? hparts
  simp only [List.getLast?_append, List.getLast?_cons_cons, List.getLast?_singleton,
    Option.some_or, Option.some.injEq] at hlast
  subst hlast
  revert hsha
  decide

/-- A joined path ends in its last name. -/
theorem exists_join_append (elems : List String) {name : String} (hname : Plain name) :
    ∃ lead, join (elems ++ [name]) = lead ++ name := by
  have hfilter : (elems ++ [name]).filter (· ≠ "") = elems.filter (· ≠ "") ++ [name] := by
    rw [List.filter_append, List.filter_cons_of_pos (by simpa using hname.ne_empty),
      List.filter_nil]
  have hparts : ∃ ns, parts (joinSlash (elems.filter (· ≠ "") ++ [name])) = ns ++ [name] := by
    have hone : parts (joinSlash [name]) = [name] :=
      parts_joinSlash (by simp) (by simpa using hname.2)
    by_cases hnil : elems.filter (· ≠ "") = []
    · exact ⟨[], by rw [hnil]; exact hone⟩
    · exact ⟨_, by rw [joinSlash_append hnil (List.cons_ne_nil _ _), parts_append, hone]⟩
  obtain ⟨ns, hns⟩ := hparts
  have hjoin : join (elems ++ [name]) = clean (joinSlash (elems.filter (· ≠ "") ++ [name])) := by
    rw [join, hfilter]
    split
    · next h => simp at h
    · rfl
  have htext : ∃ lead, joinSlash (cleanParts (rooted (joinSlash
      (elems.filter (· ≠ "") ++ [name]))) ns ++ [name]) = lead ++ name := by
    generalize cleanParts _ ns = out
    by_cases hnil : out = []
    · exact ⟨"", by rw [hnil, List.nil_append, joinSlash, String.empty_append]⟩
    · exact ⟨joinSlash out ++ "/", by rw [joinSlash_append hnil (List.cons_ne_nil _ _), joinSlash]⟩
  obtain ⟨lead, hlead⟩ := htext
  rw [hjoin, clean_eq_text, names, hns, cleanParts_append_plain _ _ (plain_cons hname plain_nil),
    text, if_neg (List.append_ne_nil_of_right_ne_nil _ (List.cons_ne_nil _ _)), hlead]
  split
  · exact ⟨"/" ++ lead, String.append_assoc.symm⟩
  · exact ⟨lead, rfl⟩

/-- The file of a level is not a part. -/
theorem join_databaseName_ne (a b : String) {sha256 : String} (hsha : isSha256 sha256 = true)
    (pre : String) : join [a, b, dhDatabaseName] ≠ pre ++ sha256 := by
  obtain ⟨lead, hlead⟩ := exists_join_append [a, b] (show Plain dhDatabaseName by decide)
  intro heq
  rw [List.cons_append, List.cons_append, List.nil_append, heq, ← String.toList_inj,
    String.toList_append, String.toList_append] at hlead
  rw [isSha256, Bool.and_eq_true, beq_iff_eq, List.all_eq_true] at hsha
  have hsuffix : dhDatabaseName.toList <:+ sha256.toList :=
    List.suffix_of_suffix_length_le ⟨_, hlead.symm⟩ (List.suffix_append _ _)
      (by rw [hsha.1]; decide)
  exact absurd (hsha.2 'q' (hsuffix.subset (by decide))) (by decide)

/-- What is deleted is below the prefix. -/
theorem Laid.checkDHPruneKeys_eq_ok (h : Laid ps (ps ++ toks) stampOf keys)
    (hps : Cleaned false ps.reverse) (hbs : Cleaned false (ps ++ toks).reverse)
    (hplain : Plain stampOf) {del : List String}
    (hdel : ∀ k ∈ del, (∃ t, k = keys.snapshotsPrefix ++ t) ∨ ∃ t, k = keys.partsPrefix ++ t) :
    checkDHPruneKeys keys del = .ok () := by
  have hsnap := h.snapshotsPrefix_eq hbs hplain
  have hunder : ∀ k ∈ del, k ≠ "" ∧ UnderRoot keys.root k := by
    intro k hk
    rw [h.root_eq hps]
    obtain ⟨t, rfl⟩ | ⟨t, rfl⟩ := hdel k hk
    · rw [hsnap, List.append_assoc, String.append_assoc]
      refine ⟨fun heq => ?_, underRoot_joinSlash ps (by simp) _⟩
      have hlength := congrArg String.length heq
      simp at hlength
    · rw [h.partsPrefix, String.append_assoc]
      refine ⟨fun heq => ?_, underRoot_joinSlash ps (by simp) _⟩
      have hlength := congrArg String.length heq
      simp at hlength
  have hinside : ∀ k ∈ del, outsideTree keys k = false := by
    intro k hk
    obtain ⟨hne, hroot⟩ := hunder k hk
    have htree : (cutPrefix keys.snapshotsPrefix k).isSome = true ∨
        (cutPrefix keys.partsPrefix k).isSome = true := by
      obtain ⟨t, rfl⟩ | ⟨t, rfl⟩ := hdel k hk
      · exact .inl (by rw [cutPrefix_append]; rfl)
      · exact .inr (by rw [cutPrefix_append]; rfl)
    rw [UnderRoot, ← isSome_cutPrefix] at hroot
    rw [outsideTree, Bool.or_eq_false_iff, Bool.or_eq_false_iff, Bool.not_eq_false',
      Bool.not_eq_false', Bool.or_eq_true, Bool.or_eq_true, beq_iff_eq, beq_eq_false_iff_ne]
    exact ⟨⟨hne, hroot⟩, htree⟩
  have hfind : del.find? (outsideTree keys) = none := by
    rw [List.find?_eq_none]
    exact fun k hk => by rw [hinside k hk]; decide
  rw [checkDHPruneKeys, hfind]

/-- A survey leads to a plan if nothing fails. -/
theorem Surveyed.exists_plan (h : Laid ps (ps ++ toks) stampOf keys)
    (hps : Cleaned false ps.reverse) (hbs : Cleaned false (ps ++ toks).reverse)
    (hplain : Plain stampOf) (hkeep : 1 ≤ keep) {latestIndex : String}
    (hsurvey : Surveyed u objects keys keep latestIndex) :
    ∃ plan, planDHPrune u .none objects keys keep = .ok (some plan) ∧
      Planned u objects keys keep plan latestIndex := by
  have hlisted : ∃ folders, groupDHFolders keys.snapshotsPrefix ∅
      (listed objects keys.snapshotsPrefix) = .ok folders :=
    exists_groupDHFolders _ fun o ho => (mem_listed.1 ho).1
  obtain ⟨folders, hfolders⟩ := hlisted
  have hgrouped : Grouped objects keys.snapshotsPrefix folders := ⟨hfolders⟩
  have hkept : keptDHStamps keys.snapshotsPrefix folders keep latestIndex ≠ [] := by
    obtain ⟨stamp, hstamp⟩ := hsurvey.retained
    exact List.ne_nil_of_mem ((hgrouped.mem_keptDHStamps hkeep).2 hstamp)
  obtain ⟨referenced, hreferenced⟩ := exists_keptDHParts 1 ∅ fun key hkey =>
    hsurvey.readable key ((hgrouped.mem_keptIndexKeys hkeep).1 hkey)
  have horphans : ∃ parts, orphanDHParts keys.partsPrefix referenced
      (listed objects keys.partsPrefix) = .ok parts :=
    exists_orphanDHParts referenced fun o ho => (mem_listed.1 ho).1
  obtain ⟨parts, hparts⟩ := horphans
  have hfolderCheck : checkDHPruneKeys keys (PrunePlan.folderKeys
      ⟨oldDHFolders folders (keptDHStamps keys.snapshotsPrefix folders keep latestIndex), parts⟩) =
        .ok () :=
    h.checkDHPruneKeys_eq_ok hps hbs hplain fun k hk => by
      obtain ⟨stamp, hin, -⟩ := (hgrouped.mem_oldDHFolders hkeep hkept).1 hk
      obtain ⟨-, inner, rfl⟩ := dhStampOf_eq_some.1 hin.2
      exact .inl ⟨_, rfl⟩
  have hpartCheck : checkDHPruneKeys keys (PrunePlan.partKeys
      ⟨oldDHFolders folders (keptDHStamps keys.snapshotsPrefix folders keep latestIndex), parts⟩) =
        .ok () :=
    h.checkDHPruneKeys_eq_ok hps hbs hplain fun k hk => by
      obtain ⟨o, ho, rfl⟩ := List.mem_map.1 hk
      obtain ⟨-, sha256, hkey, -⟩ := (mem_orphanDHParts hparts).1 ho
      exact .inr ⟨sha256, hkey⟩
  have hplan : planDHPrune u .none objects keys keep = .ok (some
      ⟨oldDHFolders folders (keptDHStamps keys.snapshotsPrefix folders keep latestIndex),
        parts⟩) := by
    unfold planDHPrune
    rw [if_neg (not_lt.2 hkeep)]
    refine except_bind_eq_ok.2 ⟨_, rfl, except_bind_eq_ok.2 ⟨folders, hfolders,
      except_bind_eq_ok.2 ⟨latestIndex, hsurvey.pointer, ?_⟩⟩⟩
    dsimp only
    rw [if_neg hkept]
    exact except_bind_eq_ok.2 ⟨referenced, hreferenced, except_bind_eq_ok.2 ⟨_, rfl,
      except_bind_eq_ok.2 ⟨parts, hparts, except_bind_eq_ok.2 ⟨(), hfolderCheck,
        except_bind_eq_ok.2 ⟨(), hpartCheck, rfl⟩⟩⟩⟩⟩
  obtain ⟨latest, hplanned⟩ := planned_of_planDHPrune hplan
  have hsame : latest = latestIndex :=
    Except.ok.inj (hplanned.surveyed.pointer.symm.trans hsurvey.pointer)
  subst hsame
  exact ⟨_, hplan, hplanned⟩

end

/-! ## Deleting -/

/-- What a deletion does to the objects, and what its success means. -/
theorem exists_gone (objects : GoMap (List UInt8)) (fault : Option (String × (String → Bool)))
    (del : List String) : ∃ gone : String → Bool,
      (∀ key, (deleteListed objects fault del).2.lookup key =
        if gone key then none else objects.lookup key) ∧
      (∀ key, gone key = true → key ∈ del ∧ ∀ k ∈ del, sendable k = true) ∧
      ((deleteListed objects fault del).1 = none →
        (∀ k ∈ del, sendable k = true) ∧ ∀ k ∈ del, gone k = true) := by
  by_cases hnil : del = []
  · subst hnil
    exact ⟨fun _ => false, fun _ => rfl, by simp, by simp⟩
  rw [deleteListed, if_neg hnil]
  cases hfind : del.find? (! sendable ·) with
  | some k =>
    simp only [deleteObjects, hfind]
    exact ⟨fun _ => false, by simp, by simp, by simp⟩
  | none =>
    have hsend : ∀ k ∈ del, sendable k = true := by
      intro k hk
      have hnot := List.find?_eq_none.1 hfind k hk
      simpa using hnot
    cases fault with
    | none =>
      simp only [deleteObjects, hfind]
      refine ⟨fun k => del.contains k, fun key => GoMap.lookup_deleteKeys _ _ _, ?_, ?_⟩
      · exact fun key hkey => ⟨List.contains_iff_mem.1 hkey, hsend⟩
      · exact fun _ => ⟨hsend, fun k hk => List.contains_iff_mem.2 hk⟩
    | some fault =>
      obtain ⟨e, went⟩ := fault
      simp only [deleteObjects, hfind]
      refine ⟨fun k => del.contains k && went k, fun key => GoMap.lookup_deleteKeys _ _ _, ?_, ?_⟩
      · intro key hkey
        rw [Bool.and_eq_true, List.contains_iff_mem] at hkey
        exact ⟨hkey.1, hsend⟩
      · exact fun h => nomatch h

/-- The folders to delete can be sent. -/
def FoldersGo (objects : GoMap (List UInt8)) (keys : SnapshotKeys) (keep : Int)
    (latestIndex : String) : Prop :=
  ∀ key, InDropped objects keys.snapshotsPrefix keep latestIndex key → sendable key = true

/-- So can the parts, which go last. -/
def PartsGo (u : Unmarshal) (objects : GoMap (List UInt8)) (keys : SnapshotKeys) (keep : Int)
    (latestIndex : String) : Prop :=
  FoldersGo objects keys keep latestIndex ∧
    ∀ key, Unneeded u objects keys keep latestIndex key → sendable key = true

/-- What a prune may have deleted in the end: nothing, some of the old folders, or all of them and
some of the parts that no kept index names. -/
inductive MayGo (u : Unmarshal) (objects : GoMap (List UInt8)) (keys : SnapshotKeys) (keep : Int)
    (gone : String → Bool) : Prop where
  | nothing : (∀ key, gone key = false) → MayGo u objects keys keep gone
  | folders {latestIndex : String} : Surveyed u objects keys keep latestIndex →
      FoldersGo objects keys keep latestIndex →
      (∀ key, gone key = true → InDropped objects keys.snapshotsPrefix keep latestIndex key) →
      MayGo u objects keys keep gone
  | parts {latestIndex : String} : Surveyed u objects keys keep latestIndex →
      PartsGo u objects keys keep latestIndex →
      (∀ key, InDropped objects keys.snapshotsPrefix keep latestIndex key → gone key = true) →
      (∀ key, gone key = true → InDropped objects keys.snapshotsPrefix keep latestIndex key ∨
        Unneeded u objects keys keep latestIndex key) → MayGo u objects keys keep gone

/-- Whatever fails, a prune deletes no more than it may. -/
theorem exists_mayGo (u : Unmarshal) (faults : PruneFaults) (objects : GoMap (List UInt8))
    (keys : SnapshotKeys) (keep : Int) : ∃ gone : String → Bool,
      (∀ key, (pruneDHSnapshots u faults objects keys keep).2.2.lookup key =
        if gone key then none else objects.lookup key) ∧ MayGo u objects keys keep gone := by
  have hnothing : ∃ gone : String → Bool, (∀ key, objects.lookup key =
      if gone key then none else objects.lookup key) ∧ MayGo u objects keys keep gone :=
    ⟨fun _ => false, fun _ => rfl, .nothing fun _ => rfl⟩
  unfold pruneDHSnapshots
  split
  · exact hnothing
  · exact hnothing
  · next plan hplan =>
    obtain ⟨latestIndex, hplanned⟩ := planned_of_planDHPrune hplan
    obtain ⟨gone, hlookup, hgone, hdone⟩ := exists_gone objects faults.folders plan.folderKeys
    have hfolders : (∀ key, gone key = false) ∨ FoldersGo objects keys keep latestIndex := by
      by_cases hnone : ∀ key, gone key = false
      · exact .inl hnone
      · obtain ⟨key, hkey⟩ := not_forall.1 hnone
        have hsend := (hgone key (by simpa using hkey)).2
        exact .inr fun k hk => hsend k ((hplanned.mem_folderKeys k).2 hk)
    dsimp only
    split
    · next e left hdelete =>
      rw [hdelete] at hlookup
      refine ⟨gone, hlookup, ?_⟩
      obtain hnone | hsend := hfolders
      · exact .nothing hnone
      · exact .folders hplanned.surveyed hsend fun key hkey =>
          (hplanned.mem_folderKeys key).1 (hgone key hkey).1
    · next left hdelete =>
      rw [hdelete] at hlookup hdone
      obtain ⟨hsend, hall⟩ := hdone rfl
      have hfoldersGo : FoldersGo objects keys keep latestIndex := fun k hk =>
        hsend k ((hplanned.mem_folderKeys k).2 hk)
      obtain ⟨goneParts, hlookupParts, hgoneParts, hdoneParts⟩ :=
        exists_gone left faults.parts plan.partKeys
      have hboth : ∀ key, (deleteListed left faults.parts plan.partKeys).2.lookup key =
          if gone key || goneParts key then none else objects.lookup key := by
        intro key
        rw [hlookupParts, hlookup]
        cases gone key <;> cases goneParts key <;> rfl
      have hmay : MayGo u objects keys keep fun key => gone key || goneParts key := by
        by_cases hnone : ∀ key, goneParts key = false
        · refine .folders hplanned.surveyed hfoldersGo fun key hkey => ?_
          rw [hnone key, Bool.or_false] at hkey
          exact (hplanned.mem_folderKeys key).1 (hgone key hkey).1
        · obtain ⟨key, hkey⟩ := not_forall.1 hnone
          have hsendParts := (hgoneParts key (by simpa using hkey)).2
          refine .parts hplanned.surveyed ⟨hfoldersGo, fun k hk =>
            hsendParts k ((hplanned.mem_partKeys k).2 hk)⟩ (fun k hk => ?_) fun k hk => ?_
          · rw [hall k ((hplanned.mem_folderKeys k).2 hk), Bool.true_or]
          · rw [Bool.or_eq_true] at hk
            obtain hk | hk := hk
            · exact .inl ((hplanned.mem_folderKeys k).1 (hgone k hk).1)
            · exact .inr ((hplanned.mem_partKeys k).1 (hgoneParts k hk).1)
      split
      · next e left' hdelete' =>
        rw [hdelete'] at hboth
        exact ⟨_, hboth, hmay⟩
      · next left' hdelete' =>
        rw [hdelete'] at hboth
        exact ⟨_, hboth, hmay⟩

/-- A deletion that does not fail deletes everything, if everything can be sent. -/
theorem deleteListed_none {del : List String} (h : ∀ k ∈ del, sendable k = true) :
    (deleteListed objects none del).1 = none ∧
      ∀ k ∈ del, (deleteListed objects none del).2.lookup k = none := by
  by_cases hnil : del = []
  · subst hnil
    exact ⟨rfl, by simp⟩
  · have hfind : del.find? (! sendable ·) = none := by
      rw [List.find?_eq_none]
      intro k hk
      rw [h k hk]
      decide
    rw [deleteListed, if_neg hnil]
    simp only [deleteObjects, hfind]
    refine ⟨trivial, fun k hk => ?_⟩
    rw [GoMap.lookup_deleteKeys, if_pos (List.contains_iff_mem.2 hk)]

/-- Without a failure everything goes that a prune has found. -/
theorem lookup_pruned {plan : PrunePlan} {latestIndex : String}
    (hplan : planDHPrune u .none objects keys keep = .ok (some plan))
    (hplanned : Planned u objects keys keep plan latestIndex) :
    (FoldersGo objects keys keep latestIndex → ∀ key,
      InDropped objects keys.snapshotsPrefix keep latestIndex key →
        (pruneDHSnapshots u .none objects keys keep).2.2.lookup key = none) ∧
      (PartsGo u objects keys keep latestIndex → ∀ key,
        Unneeded u objects keys keep latestIndex key →
          (pruneDHSnapshots u .none objects keys keep).2.2.lookup key = none) := by
  have hfolders : FoldersGo objects keys keep latestIndex → ∃ left,
      (∀ k ∈ plan.folderKeys, left.lookup k = none) ∧
        (pruneDHSnapshots u .none objects keys keep).2.2 =
          (deleteListed left none plan.partKeys).2 := by
    intro hgo
    have hsend : ∀ k ∈ plan.folderKeys, sendable k = true := fun k hk =>
      hgo k ((hplanned.mem_folderKeys k).1 hk)
    obtain ⟨hnone, hleft⟩ := @deleteListed_none objects _ hsend
    refine ⟨_, hleft, ?_⟩
    have hfirst : deleteListed objects PruneFaults.none.folders plan.folderKeys =
        (none, (deleteListed objects none plan.folderKeys).2) := Prod.ext hnone rfl
    unfold pruneDHSnapshots
    simp only [hplan, hfirst]
    split
    · next e left hdelete => exact (congrArg Prod.snd hdelete).symm
    · next left hdelete => exact (congrArg Prod.snd hdelete).symm
  constructor
  · intro hgo key hkey
    obtain ⟨left, hleft, hrun⟩ := hfolders hgo
    obtain ⟨gone, hlookup, -⟩ := exists_gone left none plan.partKeys
    rw [hrun, hlookup, hleft key ((hplanned.mem_folderKeys key).2 hkey), ite_self]
  · rintro ⟨hgo, hsend⟩ key hkey
    obtain ⟨left, -, hrun⟩ := hfolders hgo
    rw [hrun]
    exact (deleteListed_none fun k hk => hsend k ((hplanned.mem_partKeys k).1 hk)).2 key
      ((hplanned.mem_partKeys key).2 hkey)

end

/-! ## What pruning keeps -/

/-- The index of a snapshot in any layout of a prefix. -/
def IsIndexKey (keyPrefix key : String) : Prop :=
  ∃ token time keys stamp, snapshotKeys keyPrefix token (snapshotTime time) = .ok keys ∧
    isDHFolderStamp stamp = true ∧ key = folderIndexKey keys.snapshotsPrefix stamp

/-- The file of a level, in the folder of its index. -/
def levelKey (indexKey : String) (l : DHIndexLevel) : String :=
  join [dir indexKey, l.folder, dhDatabaseName]

/-- The objects of the snapshot that the pointer names. -/
inductive OfSnapshot (keys : SnapshotKeys) (indexKey : String) (ix : DHIndex) : String → Prop where
  | latest : OfSnapshot keys indexKey ix keys.latest
  | index : OfSnapshot keys indexKey ix indexKey
  | part {sha256 : String} : sha256 ∈ ix.partSet → isSha256 sha256 = true →
      OfSnapshot keys indexKey ix (keys.partKey sha256)
  | level {l : DHIndexLevel} : l ∈ ix.levels → OfSnapshot keys indexKey ix (levelKey indexKey l)

/-- What a remaining snapshot needs is still there: the parts that a remaining index names, the
snapshot of the pointer, and the parts of a folder without an index that was left. -/
structure Keeps (u : Unmarshal) (keyPrefix : String) (keys : SnapshotKeys)
    (uploaded : String → List String) (before after : GoMap (List UInt8)) : Prop where
  named : ∀ key, IsIndexKey keyPrefix key → ∀ ix, IndexAt u after key ix →
    ∀ sha256 ∈ ix.partSet, isSha256 sha256 = true →
      after.lookup (keys.partKey sha256) = before.lookup (keys.partKey sha256)
  current : ∀ indexKey, currentDHIndexKey u .none before keys.latest = .ok indexKey →
    ∀ ix, IndexAt u before indexKey ix → ∀ key, OfSnapshot keys indexKey ix key →
      after.lookup key = before.lookup key
  inProgress : ∀ stamp key, InFolder after keys.snapshotsPrefix stamp key →
    ¬ HasIndex before keys.snapshotsPrefix stamp → ∀ sha256 ∈ uploaded stamp,
      isSha256 sha256 = true →
        after.lookup (keys.partKey sha256) = before.lookup (keys.partKey sha256)

/-- Whoever needs a part of the prefix shares it with a snapshot to keep, as soon as the prune
comes to delete parts; and nothing of the current snapshot is where it deletes. -/
structure Shared (u : Unmarshal) (keyPrefix : String) (keys : SnapshotKeys)
    (uploaded : String → List String) (objects : GoMap (List UInt8)) (keep : Int)
    (latestIndex : String) : Prop where
  levels : FoldersGo objects keys keep latestIndex → ∀ ix, IndexAt u objects latestIndex ix →
    ∀ l ∈ ix.levels, ¬ InDropped objects keys.snapshotsPrefix keep latestIndex
      (levelKey latestIndex l)
  index : PartsGo u objects keys keep latestIndex →
    ¬ Unneeded u objects keys keep latestIndex latestIndex
  named : PartsGo u objects keys keep latestIndex → ∀ key, IsIndexKey keyPrefix key →
    ¬ InDropped objects keys.snapshotsPrefix keep latestIndex key →
      ∀ ix, IndexAt u objects key ix → ∀ sha256 ∈ ix.partSet, isSha256 sha256 = true →
        (objects.lookup (keys.partKey sha256)).isSome = true →
          Needed u objects keys.snapshotsPrefix keep latestIndex sha256
  inProgress : PartsGo u objects keys keep latestIndex → ∀ stamp key,
    InFolder objects keys.snapshotsPrefix stamp key →
      ¬ HasIndex objects keys.snapshotsPrefix stamp →
      ¬ Dropped objects keys.snapshotsPrefix keep latestIndex stamp →
        ∀ sha256 ∈ uploaded stamp, isSha256 sha256 = true →
          (objects.lookup (keys.partKey sha256)).isSome = true →
            Needed u objects keys.snapshotsPrefix keep latestIndex sha256

section

variable {u : Unmarshal} {objects : GoMap (List UInt8)} {keys : SnapshotKeys} {keep : Int}
  {latestIndex : String} {ps toks : List String} {stampOf : String}

/-- The names of a layout, and how they are put together. -/
structure LaidOut (ps toks : List String) (stampOf : String) (keys : SnapshotKeys) : Prop where
  laid : Laid ps (ps ++ toks) stampOf keys
  root : Cleaned false ps.reverse
  base : Cleaned false (ps ++ toks).reverse
  stamp : Plain stampOf

theorem laidOut_snapshotKeys {keyPrefix token : String} {time : UTCTime}
    (h : snapshotKeys keyPrefix token (snapshotTime time) = .ok keys) :
    LaidOut (names (trimSlashes keyPrefix)) (tokenNames token) (dhFolderStamp time) keys := by
  obtain ⟨htoken, -, hlaid⟩ := laid_snapshotKeys h (plain_dhFolderStamp time)
  have hroot := cleaned_names (trimSlashes keyPrefix)
  rw [trimSlashes_rooted] at hroot
  exact ⟨hlaid, hroot, hroot.append_plain htoken, plain_dhFolderStamp time⟩

/-- No part is in a folder. -/
theorem LaidOut.not_inDropped_part (h : LaidOut ps toks stampOf keys) {sha256 : String}
    (hsha : isSha256 sha256 = true) :
    ¬ InDropped objects keys.snapshotsPrefix keep latestIndex (keys.partKey sha256) := by
  rintro ⟨stamp, hin, -⟩
  exact h.laid.ne_partKey h.root h.base h.stamp hin.2 h.laid hsha rfl

theorem LaidOut.not_inDropped_latest (h : LaidOut ps toks stampOf keys) :
    ¬ InDropped objects keys.snapshotsPrefix keep latestIndex keys.latest := by
  rintro ⟨stamp, hin, -⟩
  exact h.laid.latest_not_in_folder h.base h.stamp hin.2

theorem LaidOut.not_unneeded_latest (h : LaidOut ps toks stampOf keys) :
    ¬ Unneeded u objects keys keep latestIndex keys.latest := by
  rintro ⟨-, sha256, hkey, hsha, -⟩
  exact h.laid.latest_ne_partKey h.root h.base hsha hkey

theorem not_unneeded_level {l : DHIndexLevel} {indexKey : String} :
    ¬ Unneeded u objects keys keep latestIndex (levelKey indexKey l) := by
  rintro ⟨-, sha256, hkey, hsha, -⟩
  exact join_databaseName_ne _ _ hsha _ hkey

/-- No index is a part. -/
theorem LaidOut.not_unneeded_index {keyPrefix key : String}
    (h : LaidOut (names (trimSlashes keyPrefix)) toks stampOf keys)
    (hkey : IsIndexKey keyPrefix key) :
    ¬ Unneeded u objects keys keep latestIndex key := by
  obtain ⟨token, time, other, stamp, hother, hstamp, rfl⟩ := hkey
  rintro ⟨-, sha256, heq, hsha, -⟩
  have hout := laidOut_snapshotKeys hother
  exact hout.laid.ne_partKey hout.root hout.base hout.stamp (dhStampOf_folderIndexKey hstamp) h.laid
    hsha heq

theorem LaidOut.not_unneeded_inFolder (h : LaidOut ps toks stampOf keys) {stamp key : String}
    (hin : InFolder objects keys.snapshotsPrefix stamp key) :
    ¬ Unneeded u objects keys keep latestIndex key := by
  rintro ⟨-, sha256, heq, hsha, -⟩
  exact h.laid.ne_partKey h.root h.base h.stamp hin.2 h.laid hsha heq

/-- The folder of the pointer's index is kept. -/
theorem not_inDropped_pointer {snapPrefix : String} :
    ¬ InDropped objects snapPrefix keep latestIndex latestIndex := by
  rintro ⟨stamp, hin, hdropped, -⟩
  exact hdropped (.inr hin.2)

theorem not_unneeded_part {sha256 : String}
    (h : Needed u objects keys.snapshotsPrefix keep latestIndex sha256) :
    ¬ Unneeded u objects keys keep latestIndex (keys.partKey sha256) := by
  rintro ⟨-, sha256', heq, -, hfree⟩
  rw [SnapshotKeys.partKey, SnapshotKeys.partKey, String.append_right_inj] at heq
  exact hfree (heq ▸ h)

/-- What nobody asks for is not missed, if the layouts share what they need. -/
theorem LaidOut.keeps {keyPrefix : String} {uploaded : String → List String}
    (h : LaidOut (names (trimSlashes keyPrefix)) toks stampOf keys)
    (hshared : ∀ latestIndex, Surveyed u objects keys keep latestIndex →
      Shared u keyPrefix keys uploaded objects keep latestIndex)
    {gone : String → Bool} (hgone : MayGo u objects keys keep gone)
    {after : GoMap (List UInt8)}
    (hafter : ∀ key, after.lookup key = if gone key then none else objects.lookup key) :
    Keeps u keyPrefix keys uploaded objects after := by
  have hstays : ∀ key, ¬ gone key = true → after.lookup key = objects.lookup key := by
    intro key hkey
    rw [hafter, if_neg hkey]
  have hleft : ∀ key data, after.lookup key = some data → ¬ gone key = true := by
    intro key data hdata hkey
    rw [hafter, if_pos hkey] at hdata
    cases hdata
  cases hgone with
  | nothing hnone =>
    have hall : ∀ key, after.lookup key = objects.lookup key := fun key =>
      hstays key (by rw [hnone key]; decide)
    exact ⟨fun _ _ _ _ _ _ _ => hall _, fun _ _ _ _ _ _ => hall _, fun _ _ _ _ _ _ _ => hall _⟩
  | @folders pointed hsurvey hgo hdropped =>
    have hkeeps : ∀ key, ¬ InDropped objects keys.snapshotsPrefix keep pointed key →
        after.lookup key = objects.lookup key := fun key hkey =>
      hstays key fun hg => hkey (hdropped key hg)
    refine ⟨fun _ _ _ _ _ _ hsha => hkeeps _ (h.not_inDropped_part hsha), ?_,
      fun _ _ _ _ _ _ hsha => hkeeps _ (h.not_inDropped_part hsha)⟩
    intro indexKey hpointer ix hix key hkey
    obtain rfl := Except.ok.inj (hsurvey.pointer.symm.trans hpointer)
    cases hkey with
    | latest => exact hkeeps _ h.not_inDropped_latest
    | index => exact hkeeps _ not_inDropped_pointer
    | part _ hsha => exact hkeeps _ (h.not_inDropped_part hsha)
    | level hl => exact hkeeps _ ((hshared _ hsurvey).levels hgo ix hix _ hl)
  | @parts pointed hsurvey hgo hall honly =>
    have hkeeps : ∀ key, ¬ InDropped objects keys.snapshotsPrefix keep pointed key →
        ¬ Unneeded u objects keys keep pointed key → after.lookup key = objects.lookup key :=
      fun key hkey hpart => hstays key fun hg => (honly key hg).elim hkey hpart
    have hpart : ∀ sha256, isSha256 sha256 = true →
        ((objects.lookup (keys.partKey sha256)).isSome = true →
          Needed u objects keys.snapshotsPrefix keep pointed sha256) →
        after.lookup (keys.partKey sha256) = objects.lookup (keys.partKey sha256) := by
      intro sha256 hsha hneeded
      refine hkeeps _ (h.not_inDropped_part hsha) fun hun => ?_
      exact not_unneeded_part (hneeded hun.1) hun
    refine ⟨?_, ?_, ?_⟩
    · rintro key hkey ix ⟨data, hdata, hix⟩ sha256 hmem hsha
      have hnot := hleft key data hdata
      rw [hstays key hnot] at hdata
      exact hpart sha256 hsha ((hshared _ hsurvey).named hgo key hkey
        (fun hin => hnot (hall key hin)) ix ⟨data, hdata, hix⟩ sha256 hmem hsha)
    · intro indexKey hpointer ix hix key hkey
      obtain rfl := Except.ok.inj (hsurvey.pointer.symm.trans hpointer)
      cases hkey with
      | latest => exact hkeeps _ h.not_inDropped_latest h.not_unneeded_latest
      | index => exact hkeeps _ not_inDropped_pointer ((hshared _ hsurvey).index hgo)
      | part hmem hsha => exact hpart _ hsha fun _ => ⟨_, ix, .inl rfl, hix, hmem⟩
      | level hl =>
        exact hkeeps _ ((hshared _ hsurvey).levels hgo.1 ix hix _ hl) not_unneeded_level
    · rintro stamp key ⟨hsome, hstamp⟩ hindex sha256 hmem hsha
      obtain ⟨data, hdata⟩ := Option.isSome_iff_exists.1 hsome
      have hnot := hleft key data hdata
      rw [hstays key hnot] at hsome
      have hin : InFolder objects keys.snapshotsPrefix stamp key := ⟨hsome, hstamp⟩
      exact hpart sha256 hsha ((hshared _ hsurvey).inProgress hgo stamp key hin hindex
        (fun hdropped => hnot (hall key ⟨stamp, hin, hdropped⟩)) sha256 hmem hsha)

/-- A prune that keeps what is needed has shown that the layouts share it. -/
theorem LaidOut.shared {keyPrefix : String} {uploaded : String → List String}
    (h : LaidOut (names (trimSlashes keyPrefix)) toks stampOf keys) (hkeep : 1 ≤ keep)
    (hsurvey : Surveyed u objects keys keep latestIndex)
    (hkeeps : Keeps u keyPrefix keys uploaded objects
      (pruneDHSnapshots u .none objects keys keep).2.2) :
    Shared u keyPrefix keys uploaded objects keep latestIndex := by
  obtain ⟨plan, hplan, hplanned⟩ := hsurvey.exists_plan h.laid h.root h.base h.stamp hkeep
  obtain ⟨hfolders, hparts⟩ := lookup_pruned hplan hplanned
  obtain ⟨gone, hlookup, hgone⟩ := exists_mayGo u .none objects keys keep
  generalize (pruneDHSnapshots u .none objects keys keep).2.2 = after at *
  obtain ⟨ix, hix⟩ := hsurvey.readable latestIndex (.inl rfl)
  have hstays : ∀ key, ¬ InDropped objects keys.snapshotsPrefix keep latestIndex key →
      ¬ Unneeded u objects keys keep latestIndex key → after.lookup key = objects.lookup key := by
    intro key hkey hpart
    rw [hlookup, if_neg]
    intro hg
    cases hgone with
    | nothing hnone =>
      rw [hnone] at hg
      cases hg
    | folders hsurvey' _ hdropped =>
      obtain rfl := Except.ok.inj (hsurvey.pointer.symm.trans hsurvey'.pointer)
      exact hkey (hdropped key hg)
    | parts hsurvey' _ _ honly =>
      obtain rfl := Except.ok.inj (hsurvey.pointer.symm.trans hsurvey'.pointer)
      exact (honly key hg).elim hkey hpart
  have hneeded : PartsGo u objects keys keep latestIndex → ∀ sha256, isSha256 sha256 = true →
      (objects.lookup (keys.partKey sha256)).isSome = true →
      after.lookup (keys.partKey sha256) = objects.lookup (keys.partKey sha256) →
        Needed u objects keys.snapshotsPrefix keep latestIndex sha256 := by
    intro hgo sha256 hsha hsome heq
    by_contra hfree
    rw [hparts hgo _ ⟨hsome, sha256, rfl, hsha, hfree⟩] at heq
    rw [← heq] at hsome
    cases hsome
  refine ⟨?_, ?_, ?_, ?_⟩
  · intro hgo ix' hix' l hl hin
    have heq := hkeeps.current latestIndex hsurvey.pointer ix' hix' _ (.level hl)
    rw [hfolders hgo _ hin] at heq
    obtain ⟨stamp, ⟨hsome, -⟩, -⟩ := hin
    rw [← heq] at hsome
    cases hsome
  · intro hgo hun
    have heq := hkeeps.current latestIndex hsurvey.pointer ix hix _ .index
    rw [hparts hgo _ hun] at heq
    obtain ⟨hsome, -⟩ := hun
    rw [← heq] at hsome
    cases hsome
  · rintro hgo key hkey hnot ix' ⟨data, hdata, hix'⟩ sha256 hmem hsha hsome
    refine hneeded hgo sha256 hsha hsome
      (hkeeps.named key hkey ix' ⟨data, ?_, hix'⟩ sha256 hmem hsha)
    rw [hstays key hnot (h.not_unneeded_index hkey), hdata]
  · intro hgo stamp key hin hindex hnot sha256 hmem hsha hsome
    have hout : ¬ InDropped objects keys.snapshotsPrefix keep latestIndex key := by
      rintro ⟨stamp', hin', hdropped⟩
      obtain rfl := Option.some.inj (hin.2.symm.trans hin'.2)
      exact hnot hdropped
    refine hneeded hgo sha256 hsha hsome (hkeeps.inProgress stamp key ⟨?_, hin.2⟩ hindex sha256 hmem
      hsha)
    rw [hstays key hout (h.not_unneeded_inFolder hin)]
    exact hin.1

/-- Pruning a layout keeps what the remaining snapshots of the prefix need, whatever fails, exactly
if what the other layouts and the publishes in progress need of the parts is named by an index
that this layout keeps. -/
theorem pruneDHSnapshots_keeps_iff (u : Unmarshal) {keyPrefix token : String} {time : UTCTime}
    (hkeys : snapshotKeys keyPrefix token (snapshotTime time) = .ok keys) (hkeep : 1 ≤ keep)
    (objects : GoMap (List UInt8)) (uploaded : String → List String) :
    (∀ faults, Keeps u keyPrefix keys uploaded objects
      (pruneDHSnapshots u faults objects keys keep).2.2) ↔
      ∀ latestIndex, Surveyed u objects keys keep latestIndex →
        Shared u keyPrefix keys uploaded objects keep latestIndex := by
  have hout := laidOut_snapshotKeys hkeys
  constructor
  · exact fun h latestIndex hsurvey => hout.shared hkeep hsurvey (h .none)
  · intro h faults
    obtain ⟨gone, hlookup, hgone⟩ := exists_mayGo u faults objects keys keep
    exact hout.keeps h hgone hlookup

end

/-! ## A bucket -/

/-- The bytes of a text in ASCII. -/
private def ascii (s : String) : List UInt8 := s.toList.map fun c => c.toNat.toUInt8

private def pointerText : String :=
  "\x7b\"format\":1,\"index\":\"snapshots/20260102T000000Z/index.json\"\x7d"

private def emptyText : String := "\x7b\"format\":1\x7d"

private def partName : String := repeated "a" 64

private def partText : String :=
  "\x7b\"format\":1,\"levels\":[\x7b\"parts\":[\x7b\"sha256\":\"" ++ partName ++ "\"\x7d]\x7d]\x7d"

/-- The decoders, on the texts above; the second index is only read where it is wanted. -/
private def sampleUnmarshal (full : Bool) : Unmarshal where
  latest data :=
    if data = ascii pointerText then .ok ⟨1, "", "snapshots/20260102T000000Z/index.json"⟩
    else .error "unexpected end of JSON input"
  index data :=
    if data = ascii emptyText then .ok ⟨1, "", "", "", "", []⟩
    else if full ∧ data = ascii partText then
      .ok ⟨1, "", "", "", "", [⟨"", 0, "", [⟨partName, 0⟩]⟩]⟩
    else .error "unexpected end of JSON input"

private def sampleTime : UTCTime := ⟨2026, 1, 2, 0, 0, 0⟩

/-- A public layout with two snapshots. -/
private def publicObjects : GoMap (List UInt8) := GoMap.ofList
  [("dh/latest.json", ascii pointerText),
    ("dh/snapshots/20260101T000000Z/index.json", ascii emptyText),
    ("dh/snapshots/20260102T000000Z/index.json", ascii emptyText)]

/-- The same, and a snapshot behind a link. -/
private def linkedObjects : GoMap (List UInt8) :=
  (publicObjects.insert "dh/link/snapshots/20260102T000000Z/index.json" (ascii partText)).insert
    ("dh/parts/" ++ partName) []

private def prunedKeys : SnapshotKeys :=
  ⟨"2026-01-02T00:00:00Z", "dh/latest.json", "dh/snapshots/20260102T000000Z/index.json",
    "dh/snapshots/20260102T000000Z/index.html", "dh/parts/", "../../parts/",
    "dh/snapshots/20260102T000000Z"⟩

private theorem sampleKeys_eq : snapshotKeys "dh" "" (snapshotTime sampleTime) = .ok prunedKeys := by
  decide +kernel

/-- With one layout only, and nothing in its snapshots, nothing can be missed. -/
theorem pruneDHSnapshots_keeps_public : Keeps (sampleUnmarshal false) "dh" prunedKeys
    (fun _ => []) publicObjects
      (pruneDHSnapshots (sampleUnmarshal false) .none publicObjects prunedKeys 1).2.2 := by
  have hempty : ∀ {key ix}, IndexAt (sampleUnmarshal false) publicObjects key ix →
      ix.levels = [] := by
    rintro key ix ⟨data, -, hix⟩
    simp only [Unmarshal.parseDHIndex, sampleUnmarshal, Bool.false_eq_true, false_and,
      if_false] at hix
    split at hix
    · cases hix
    · next heq =>
      split at heq
      · cases heq
        cases hix
        rfl
      · cases heq
  have hparts : ∀ {key ix}, IndexAt (sampleUnmarshal false) publicObjects key ix →
      ix.partSet = ∅ := fun h => by rw [DHIndex.partSet, hempty h]; rfl
  refine (pruneDHSnapshots_keeps_iff (sampleUnmarshal false) sampleKeys_eq (by decide) publicObjects
    (fun _ => [])).2 (fun latestIndex hsurvey => ⟨?_, ?_, ?_, ?_⟩) .none
  · intro _ ix hix l hl
    rw [hempty hix] at hl
    cases hl
  · intro _
    have hpointer : latestIndex = "dh/snapshots/20260102T000000Z/index.json" :=
      Except.ok.inj (hsurvey.pointer.symm.trans (by decide +kernel))
    rw [hpointer]
    exact (laidOut_snapshotKeys sampleKeys_eq).not_unneeded_index
      ⟨"", sampleTime, prunedKeys, "20260102T000000Z", sampleKeys_eq, by decide +kernel,
        by decide +kernel⟩
  · intro _ key _ _ ix hix sha256 hmem
    rw [hparts hix] at hmem
    exact absurd hmem (Finset.notMem_empty _)
  · intro _ stamp key _ _ _ sha256 hmem
    cases hmem

/-- The part of the snapshot behind the link goes, and its index stays. -/
theorem not_pruneDHSnapshots_keeps : ¬ ∀ u keyPrefix token time keys keep objects uploaded faults,
    snapshotKeys keyPrefix token (snapshotTime time) = .ok keys → 1 ≤ keep →
      Keeps u keyPrefix keys uploaded objects
        (pruneDHSnapshots u faults objects keys keep).2.2 := by
  intro h
  have hkeeps := h (sampleUnmarshal true) "dh" "" sampleTime prunedKeys 1 linkedObjects
    (fun _ => []) .none sampleKeys_eq (by decide)
  have hpart := hkeeps.named "dh/link/snapshots/20260102T000000Z/index.json"
    ⟨"link", sampleTime, _, "20260102T000000Z", rfl, by decide +kernel, by decide +kernel⟩
    ⟨1, "", "", "", "", [⟨"", 0, "", [⟨partName, 0⟩]⟩]⟩
    ⟨ascii partText, by decide +kernel, by decide +kernel⟩ partName (by decide +kernel)
    (by decide +kernel)
  revert hpart
  decide +kernel

end Konnekt.Snapshots
