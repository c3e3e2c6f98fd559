import Konnekt.Snapshots.Prune

/-!
# Running a snapshot

A run stages what the databases of a server have and the snapshot before has not. With a
destination the snapshot before is the one that `latest.json` of the bucket points at; without
one it is the index that the run before left in the staging folder. A run that ends well
clears that folder of the parts it need not keep.
-/

namespace Konnekt.Snapshots

open Go

/-! ## The snapshot before -/

/-- `dhLatestIndex`. -/
structure DHLatestIndex where
  index : DHIndex
  indexKey : String
  deriving DecidableEq, Repr

/-- What reads the objects of a bucket, `GetObject`. -/
abbrev DHIndexReader (m : Type → Type) := String → m (Except String (Option (List UInt8)))

/-- `readLatestIndex`. -/
def readLatestIndex {m : Type → Type} [Monad m] (u : Unmarshal) (get : DHIndexReader m)
    (latestKey : String) : m (Except String (Option DHLatestIndex)) := do
  match ← get latestKey with
  | .error e => return .error e
  | .ok none => return .ok none
  | .ok (some data) =>
    match u.parseDHLatest data with
    | .error e =>
      return .error (latestKey ++ " is not a Distant Horizons latest.json: " ++ e)
    | .ok latest =>
      match latestIndexKey latestKey latest with
      | .error e => return .error e
      | .ok indexKey =>
        match ← get indexKey with
        | .error e => return .error e
        | .ok none => return .error (latestKey ++ " points at " ++ indexKey ++
            ", which is not in the bucket: delete " ++ latestKey ++
              " to start over with a first snapshot")
        | .ok (some data) =>
          match u.parseDHIndex data with
          | .error e => return .error (indexKey ++ " is not a Distant Horizons index: " ++ e)
          | .ok ix => return .ok (some ⟨ix, indexKey⟩)

/-- What a staging folder has: its `index.json` and the files of `parts` by their names. -/
structure StagingFolder where
  index : Option (List UInt8)
  parts : GoMap (List UInt8)

/-- How an index is read and written. -/
structure IndexFormat where
  unmarshal : Unmarshal
  marshal : DHIndex → Except String (List UInt8)

/-! ## What a run is given -/

/-- `dhRunPlan`. The block has resolved the folder that it stages in. -/
structure DHRunPlan where
  bucket : Option (DHIndexReader Id)
  bucketLabel : String
  keyPrefix : String
  token : String
  stageDir : String
  stageDir_ne : stageDir ≠ ""
  /-- In seconds. -/
  lead : Int
  partSize : Int

/-- What the server and its files answer in a run. -/
structure DHHost where
  running : Bool
  canWarn : Bool
  /-- `resolveDHRunSource`. -/
  source : Except String DHSnapshotSource
  /-- `checkFreeSpace`. -/
  freeSpace : DHSnapshotSource → Option String
  say : Nat → Option String
  sleep : Nat → Option String
  stopErr : Option String
  startErr : Option String
  /-- `WhileDown`. -/
  down : Option String
  /-- The time at the checks and at the copy. -/
  now : UTCTime
  copiedAt : UTCTime
  ctx : Nat → Option String

/-- What the disk answers in a run. -/
structure DHRunDisk where
  readIndex : Option String
  /-- Whether there is a file, as `Lstat` tells. -/
  lstat : String → Except String Bool
  mkdirAll : Option String
  stage : StageDisk
  writeIndex : Option String
  reread : Option String
  readDir : Option String
  remove : String → Option String

/-- A run. -/
structure DHRun where
  plan : DHRunPlan
  host : DHHost
  disk : DHRunDisk

/-- `dhRunResult`, without the downtime. -/
structure DHRunResult where
  folder : String
  bytesChanged : Int
  partsChanged : Nat
  partsTotal : Nat
  deriving DecidableEq, Repr

/-- `dhPreflight`. -/
structure DHPreflight where
  src : DHSnapshotSource
  prev : Option DHIndex
  prevFromBucket : Bool
  running : Bool

def dhMaxLeadSeconds : Int := 30 * 60

section

variable (f : IndexFormat) (sha256 : List UInt8 → String)

/-! ## Before anything is stopped -/

/-- `localIndex`: an index that cannot be read is none. -/
def DHRun.localIndex (r : DHRun) (folder : StagingFolder) : Option DHIndex :=
  match folder.index, r.disk.readIndex with
  | none, _ | some _, some _ => none
  | some data, none => (f.unmarshal.parseDHIndex data).toOption

/-- `previousIndex`, and whether it is the bucket's. -/
def DHRun.previousIndex (r : DHRun) (folder : StagingFolder) :
    Except String (Option DHIndex × Bool) :=
  match r.plan.bucket with
  | none => .ok (r.localIndex f folder, false)
  | some bucket =>
    match snapshotKeys r.plan.keyPrefix r.plan.token (snapshotTime r.host.now) with
    | .error e => .error e
    | .ok keys =>
      match readLatestIndex f.unmarshal bucket keys.latest with
      | .error e =>
        .error ("cannot read the previous snapshot from " ++ r.plan.bucketLabel ++ ": " ++ e)
      | .ok none => .ok (none, false)
      | .ok (some prev) => .ok (some prev.index, true)

/-- `preflight`. -/
def DHRun.preflight (r : DHRun) (folder : StagingFolder) : Except String DHPreflight :=
  if r.plan.lead < 0 ∨ dhMaxLeadSeconds < r.plan.lead then
    .error ("the warning lead time must be between 0 and " ++ toString dhMaxLeadSeconds ++
      " seconds")
  else
    match r.host.source with
    | .error e => .error e
    | .ok src =>
      match r.host.freeSpace src with
      | some e => .error e
      | none =>
        if r.host.running ∧ 0 < r.plan.lead ∧ ¬ r.host.canWarn then
          .error ("neither RCON nor the server's console can carry the warning, so the players " ++
            "could not be told before the stop: enable RCON (enable-rcon in server.properties) " ++
              "or start the server from Konnekt")
        else
          match r.previousIndex f folder with
          | .error e => .error e
          | .ok (prev, fromBucket) => .ok ⟨src, prev, fromBucket, r.host.running⟩

/-- The times left at the warnings of `warn`, in seconds. -/
def warningMarks (lead : Int) : List Int := lead :: [60, 10].filter (· < lead)

/-- The loop of `warn`, from a warning on. -/
def DHHost.warnFrom (host : DHHost) : Nat → List Int → Option String
  | _, [] => none
  | i, _ :: marks =>
    match host.say i with
    | some e => some ("could not warn the players, so the server was not stopped: " ++ e)
    | none =>
      match host.sleep i with
      | some e => some ("cancelled while waiting to stop the server: " ++ e)
      | none => host.warnFrom (i + 1) marks

/-- `warn`. -/
def DHRun.warn (r : DHRun) : Option String :=
  if r.plan.lead = 0 then none else r.host.warnFrom 0 (warningMarks r.plan.lead)

/-! ## Stop, copy, start -/

/-- `checkNoWAL`. -/
def checkNoWAL (lstat : String → Except String Bool) (levels : List DHLevel) : Option String :=
  (levels.flatMap fun l => ["-wal", "-shm"].map fun suffix => (l, l.path ++ suffix)).findSome?
    fun (l, side) =>
      match lstat side with
      | .error e => some ("check " ++ side ++ ": " ++ e)
      | .ok false => none
      | .ok true => some ((Path.parts side).getLastD "" ++ " sits beside " ++ l.folder ++
          ": the server did not close the database cleanly, so a copy could miss writes. " ++
            "Nothing was staged; the server is started again so Distant Horizons can recover it," ++
              " then run the snapshot once more")

/-- `copy`. -/
def DHRun.copy (r : DHRun) (pre : DHPreflight) (folder : StagingFolder) :
    Except String DHRunResult × StagingFolder :=
  match checkNoWAL r.disk.lstat pre.src.levels with
  | some e => (.error e, folder)
  | none =>
    match r.disk.mkdirAll with
    | some e => (.error ("create " ++ r.plan.stageDir ++ ": " ++ e), folder)
    | none =>
      match snapshotKeys r.plan.keyPrefix r.plan.token (snapshotTime r.host.copiedAt) with
      | .error e => (.error e, folder)
      | .ok keys =>
        match stageDHSnapshotRun sha256 r.disk.stage pre.src pre.prev keys
          ⟨r.plan.stageDir, r.plan.partSize, r.host.ctx⟩ folder.parts with
        | (.error e, parts) =>
          (.error ("copying the databases failed: " ++ e), { folder with parts })
        | (.ok (ix, absent), parts) =>
          match f.marshal ix with
          | .error e => (.error e, { folder with parts })
          | .ok data =>
            match r.disk.writeIndex with
            | some e => (.error ("write " ++ dhIndexFile ++ ": " ++ e), { folder with parts })
            | none => (.ok ⟨r.plan.stageDir, (absent.map (·.size)).sum, absent.length,
                (ix.levels.map (·.parts.length)).sum⟩, ⟨some data, parts⟩)

/-- `pruneStagedParts`: what stays of the files of `parts`. -/
def DHRunDisk.pruneStagedParts (disk : DHRunDisk) (parts : GoMap (List UInt8)) (ix : DHIndex)
    (uploaded : Option DHIndex) : GoMap (List UInt8) :=
  let live := ix.partSet
  let up := uploaded.elim ∅ DHIndex.partSet
  match disk.readDir with
  | some _ => parts
  | none => parts.deleteKeys fun name =>
      isSha256 name && !decide (name ∈ live ∧ name ∉ up) && (disk.remove name).isNone

/-- `pruneStaging`: a failure is narrated. -/
def DHRun.pruneStaging (r : DHRun) (pre : DHPreflight) (folder : StagingFolder) : StagingFolder :=
  match folder.index, r.disk.reread with
  | none, _ | some _, some _ => folder
  | some data, none =>
    match f.unmarshal.parseDHIndex data with
    | .error _ => folder
    | .ok ix => { folder with
        parts := r.disk.pruneStagedParts folder.parts ix
          (if pre.prevFromBucket then pre.prev else none) }

/-- `stopCopyStart`. -/
def DHRun.stopCopyStart (r : DHRun) (pre : DHPreflight) (folder : StagingFolder) :
    Except String DHRunResult × StagingFolder :=
  match r.host.stopErr with
  | some e => (.error ("could not stop the server: " ++ e), folder)
  | none =>
    match r.copy f sha256 pre folder, r.host.startErr with
    | (.error e, folder), some e' =>
      (.error (e ++ "; the server could not be started again either: " ++ e'), folder)
    | (.error e, folder), none => (.error e, folder)
    | (.ok _, folder), some e =>
      (.error ("the snapshot was staged, but the server could not be started again: " ++ e), folder)
    | (.ok res, folder), none => (.ok res, r.pruneStaging f pre folder)

/-- `copyWhileDown`. -/
def DHRun.copyWhileDown (r : DHRun) (pre : DHPreflight) (folder : StagingFolder) :
    Except String DHRunResult × StagingFolder :=
  match r.host.down with
  | some e => (.error ("could not keep the server stopped for the copy: " ++ e), folder)
  | none =>
    match r.copy f sha256 pre folder with
    | (.error e, folder) => (.error e, folder)
    | (.ok res, folder) => (.ok res, r.pruneStaging f pre folder)

/-- `runDHSnapshot`, on a staging folder. -/
def runDHSnapshot (r : DHRun) (folder : StagingFolder) :
    Except String DHRunResult × StagingFolder :=
  match r.preflight f folder with
  | .error e => (.error e, folder)
  | .ok pre =>
    if ¬ pre.running then r.copyWhileDown f sha256 pre folder
    else match r.warn with
      | some e => (.error e, folder)
      | none => r.stopCopyStart f sha256 pre folder

end

end Konnekt.Snapshots
