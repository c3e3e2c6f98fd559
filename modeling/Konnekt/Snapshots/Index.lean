import Mathlib.Data.Finset.Basic
import Konnekt.Go.Map
import Konnekt.Go.Reader
import Konnekt.Snapshots.Latest

/-!
# The index of a snapshot

A snapshot names the databases of a world by their parts: each part by the hash of its
bytes, so that a part which the snapshot before has is not staged again. One pass over
a database cuts it into parts, hashes them and the whole, and stages what is new.
-/

namespace Konnekt.Snapshots

open Go

structure DHPart where
  sha256 : String
  size : Int
  deriving DecidableEq, Repr

structure DHIndexLevel where
  folder : String
  size : Int
  sha256 : String
  parts : List DHPart
  deriving DecidableEq, Repr

structure DHIndex where
  format : Int
  createdAt : String
  partsBase : String
  dhVersion : String
  serverFolder : String
  levels : List DHIndexLevel
  deriving DecidableEq, Repr

def dhIndexFormat : Int := 1

/-- `partSet`. -/
def DHIndex.partSet (ix : DHIndex) : Finset String :=
  ((ix.levels.flatMap (·.parts)).map (·.sha256)).toFinset

/-- `DHLevel`, as far as staging reads it. -/
structure DHLevel where
  folder : String
  path : String
  deriving DecidableEq, Repr

structure DHSnapshotSource where
  dhVersion : String
  serverFolder : String
  levels : List DHLevel
  deriving DecidableEq, Repr

/-- `dhStage`, with what its context answers each time it is asked for its error. -/
structure DHStage where
  dir : String
  partSize : Int
  ctx : Nat → Option String

/-- The disk a stage works on: the files it reads, the error a broken one ends with, and the error
of writing a part. -/
structure StageDisk where
  openFile : String → Except String Reader
  readError : String → String
  writeError : String → Option String

/-- What a run of staging has come to: the parts staged so far, how often its context was asked,
and the `parts` folder. -/
structure StageRun where
  staged : Finset String
  checks : Nat
  folder : GoMap (List UInt8)

section

variable (sha256 : List UInt8 → String) (disk : StageDisk)

/-- `writePart`. -/
def DHStage.writePart (st : DHStage) (hash : String) (data : List UInt8) (run : StageRun) :
    Except String StageRun :=
  if st.dir = "" then .ok run
  else match disk.writeError hash with
    | some e => .error e
    | none => .ok { run with folder := run.folder.insert hash data }

/-- A chunk as a part. -/
def partOf (chunk : List UInt8) : DHPart := ⟨sha256 chunk, chunk.length⟩

/-- A part that is neither known nor staged yet is staged. -/
def DHStage.stagePart (st : DHStage) (known : Finset String) (chunk : List UInt8)
    (absent : List DHPart) (run : StageRun) : Except String (List DHPart) × StageRun :=
  let part := partOf sha256 chunk
  if part.sha256 ∈ known ∨ part.sha256 ∈ run.staged then (.ok absent, run)
  else
    let run := { run with staged := insert part.sha256 run.staged }
    match st.writePart disk part.sha256 chunk run with
    | .error e => (.error e, run)
    | .ok run => (.ok (absent ++ [part]), run)

/-- The loop of `indexDHDatabase`, with the level, the bytes the hash has seen and the absent parts
so far. -/
def DHStage.indexLoop (st : DHStage) {n : Nat} (hn : 0 < n) (path : String) (known : Finset String)
    (r : Reader) (level : DHIndexLevel) (whole : List UInt8) (absent : List DHPart)
    (run : StageRun) : Except String (DHIndexLevel × List DHPart) × StageRun :=
  let run' := { run with checks := run.checks + 1 }
  match st.ctx run.checks with
  | some e => (.error ("read " ++ path ++ ": " ++ e), run')
  | none =>
    match r.readFull n, r.rest_readFull n with
    | (chunk, stop, next), hnext =>
      let level := if chunk = [] then level else
        { level with parts := level.parts ++ [partOf sha256 chunk]
                     size := level.size + chunk.length }
      let (staged, run'') := if chunk = [] then (.ok absent, run')
        else st.stagePart sha256 disk known chunk absent run'
      match staged with
      | .error e => (.error e, run'')
      | .ok absent =>
        match stop, hnext with
        | .eof, _ | .unexpectedEOF, _ =>
          (.ok ({ level with sha256 := sha256 (whole ++ chunk) }, absent), run'')
        | .failed, _ => (.error ("read " ++ path ++ ": " ++ disk.readError path), run'')
        | .full, hnext =>
          have : next.rest.length < r.rest.length := by
            have hlength : next.rest.length + n = r.rest.length := hnext rfl
            omega
          indexLoop st hn path known next level (whole ++ chunk) absent run''
termination_by r.rest.length

/-- `indexDHDatabase`. -/
def DHStage.indexDHDatabase (st : DHStage) (path folder : String) (known : Finset String)
    (run : StageRun) : Except String (DHIndexLevel × List DHPart) × StageRun :=
  if hsize : 0 < st.partSize.toNat then
    match disk.openFile path with
    | .error e => (.error ("open " ++ path ++ ": " ++ e), run)
    | .ok r => st.indexLoop sha256 disk hsize path known r ⟨folder, 0, "", []⟩ [] [] run
  else (.error "part size must be positive", run)

/-- The databases of `stageDHSnapshotRun`, one after the other. -/
def DHStage.indexLevels (st : DHStage) (known : Finset String) (levels : List DHIndexLevel)
    (absent : List DHPart) (run : StageRun) :
    List DHLevel → Except String (List DHIndexLevel × List DHPart) × StageRun
  | [] => (.ok (levels, absent), run)
  | l :: ls =>
    match st.indexDHDatabase sha256 disk l.path l.folder known run with
    | (.error e, run) => (.error e, run)
    | (.ok (level, levelAbsent), run) =>
      st.indexLevels known (levels ++ [level]) (absent ++ levelAbsent) run ls

/-- `stageDHSnapshotRun`, on a `parts` folder. -/
def stageDHSnapshotRun (src : DHSnapshotSource) (prev : Option DHIndex)
    (keys : SnapshotKeys) (st : DHStage) (folder : GoMap (List UInt8)) :
    Except String (DHIndex × List DHPart) × GoMap (List UInt8) :=
  let known := prev.elim ∅ DHIndex.partSet
  match st.indexLevels sha256 disk known [] [] ⟨∅, 0, folder⟩ src.levels with
  | (.error e, run) => (.error e, run.folder)
  | (.ok (levels, absent), run) =>
    (.ok (⟨dhIndexFormat, keys.createdAt, keys.partsBase, src.dhVersion, src.serverFolder,
      levels⟩, absent), run.folder)

end

/-! ## Assembling a level

The bucket builds the whole database of a level out of objects that it has: out of
the parts of the level, or in large ranges out of the file that the snapshot before
assembled, if the level did not change. -/

/-- The size of each range copied from an assembled file: 1 GiB. -/
def dhCopyRangeBytes : Int := 1073741824

def s3MaxMultipartParts : Nat := 10000

/-- `s3MaxSinglePutBytes`: 5 GiB. -/
def maxUploadObjectBytes : Int := 5368709120

/-- All of the source, or a range of it: the first and the last byte, inclusive. -/
structure DHCopyStep where
  source : String
  range : Option (Int × Int)
  deriving DecidableEq, Repr

/-- `partCopySteps`. -/
def partCopySteps (keys : SnapshotKeys) (l : DHIndexLevel) : List DHCopyStep :=
  l.parts.map fun part => ⟨keys.partKey part.sha256, none⟩

/-- The ranges of `previousObjectCopies`, from a first byte on. -/
def copyRanges (size first : Int) : List (Int × Int) :=
  if first < size then
    (first, min (first + dhCopyRangeBytes) size - 1) :: copyRanges size (first + dhCopyRangeBytes)
  else []
termination_by (size - first).toNat
decreasing_by
  unfold dhCopyRangeBytes
  omega

/-- `previousObjectCopies`. -/
def previousObjectCopies (sourceKey : String) (size : Int) : List DHCopyStep :=
  (copyRanges size 0).map fun range => ⟨sourceKey, some range⟩

/-! ## Checking a level -/

/-- `reDHWholeHash` and `reDHPartName`. -/
def isSha256 (s : String) : Bool :=
  s.toList.length == 64 && s.toList.all fun c =>
    decide ('0' ≤ c ∧ c ≤ '9') || decide ('a' ≤ c ∧ c ≤ 'f')

def partError (i : Nat) (text : String) : String := "part " ++ toString (i + 1) ++ " " ++ text

/-- The parts of `checkDHLevelForPublish` from one on, and what they add up to. -/
def checkDHParts (count : Nat) (first : Int) (i : Nat) (total : Int) :
    List DHPart → Except String Int
  | [] => .ok total
  | part :: parts =>
    if ¬ isSha256 part.sha256 then .error (partError i "has a name that is not a sha256")
    else if part.size ≤ 0 ∨ maxUploadObjectBytes < part.size then
      .error (partError i ("has size " ++ toString part.size))
    else if i < count - 1 ∧ part.size ≠ first then
      .error (partError i ("is " ++ toString part.size ++ " bytes where the first is " ++
        toString first ++ ": all parts but the last must be the same length"))
    else checkDHParts count first (i + 1) (total + part.size) parts

/-- `checkDHLevelForPublish`. -/
def checkDHLevelForPublish (l : DHIndexLevel) : Option String :=
  if l.parts.length = 0 then some "has no parts, so there is no file to assemble"
  else if s3MaxMultipartParts < l.parts.length then
    some ("has " ++ toString l.parts.length ++ " parts, over the " ++
      toString s3MaxMultipartParts ++ " one assembled file may have")
  else if ¬ isSha256 l.sha256 then some "has no whole-file sha256"
  else match checkDHParts l.parts.length ((l.parts.head?.map (·.size)).getD 0) 0 0 l.parts with
    | .error e => some e
    | .ok total =>
      if total ≠ l.size then
        some ("its parts add up to " ++ toString total ++ " bytes where the index says " ++
          toString l.size)
      else none

/-! ## What the bucket builds -/

/-- The bytes that a step copies. -/
def DHCopyStep.copied (objects : GoMap (List UInt8)) (step : DHCopyStep) : Option (List UInt8) :=
  match objects.lookup step.source, step.range with
  | none, _ => none
  | some data, none => some data
  | some data, some (first, last) =>
    if 0 ≤ first ∧ first ≤ last ∧ last < data.length then
      some ((data.drop first.toNat).take (last - first + 1).toNat)
    else none

/-- The file built from some steps. -/
def builtFrom (objects : GoMap (List UInt8)) (steps : List DHCopyStep) : Option (List UInt8) :=
  (steps.mapM (DHCopyStep.copied objects)).map List.flatten

end Konnekt.Snapshots
