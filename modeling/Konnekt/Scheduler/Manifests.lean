import Konnekt.Scheduler.Blocks
import Konnekt.Scheduler.Validate

/-!
# Manifest blocks

Besides the native blocks there are those of manifest files: a descriptor of the
author's making, bound to one of a fixed set of executors by the name of a
primitive. A block keeps the executor it was first registered with.
-/

namespace Konnekt.Scheduler

open Go

/-- The executors blocks are bound to. -/
inductive Executor where
  | triggerNoOp | triggerRouted
  | execCommand | execRcon | execBackup | execWriteAttribute | execHTTP | execDelay | execNotify
  | execCondition | execUpload | execDHSnapshot | execDHPublish
  | execServerAttribute | execConstant | execRandomNumber | execMathOp
  deriving DecidableEq, Repr

/-- The executors that touch nothing outside the run. -/
def Executor.effectFree : Executor → Bool
  | .triggerNoOp | .triggerRouted | .execDelay | .execCondition
  | .execServerAttribute | .execConstant | .execRandomNumber | .execMathOp => true
  | _ => false

/-- `primitiveMap`. -/
def primitiveMap (name : String) : Option Executor :=
  [("rcon", .execRcon), ("command", .execCommand), ("http", .execHTTP), ("backup", .execBackup),
    ("write-attr", .execWriteAttribute), ("delay", .execDelay), ("condition", .execCondition),
    ("notify", Executor.execNotify)].lookup name

/-! ## The native blocks -/

/-- The descriptors of embedded blocks, under the names of their executors. -/
def named (blocks : List (BlockDef × ExecFunc Unit)) (names : List Executor) :
    List (BlockDef × Executor) :=
  (blocks.map Prod.fst).zip names

/-- The blocks that run what is not embedded: backups, requests, delays and uploads. -/
def otherBlocks : List (BlockDef × Executor) := [
  (actionDef "action.backup" "Create Backup" ["onComplete", "onFailed"] []
    [⟨"filename", "Backup filename", "string"⟩] [⟨"target", "select", false⟩], .execBackup),
  (actionDef "action.httpRequest" "HTTP Request" ["onComplete", "onFailed"]
    [⟨"url", "URL", "string"⟩, ⟨"body", "Request body", "string"⟩,
      ⟨"contentType", "Content-Type", "string"⟩]
    [⟨"status", "HTTP status", "number"⟩, ⟨"body", "Response body", "string"⟩]
    [⟨"method", "select", false⟩, ⟨"url", "string", true⟩, ⟨"body", "string", false⟩,
      ⟨"contentType", "string", false⟩], .execHTTP),
  (actionDef "action.delay" "Delay" ["onComplete", "onFailed"]
    [⟨"seconds", "Seconds", "number"⟩] [] [⟨"seconds", "number", true⟩], .execDelay),
  ({ actionDef "action.upload" "Upload to Bucket" ["onComplete", "onFailed"]
      [⟨"source", "Source", "string"⟩, ⟨"prefix", "Key prefix", "string"⟩]
      [⟨"uploaded", "Objects uploaded", "number"⟩, ⟨"skipped", "Objects skipped", "number"⟩,
        ⟨"bytes", "Bytes sent", "number"⟩]
      [⟨"destination", destinationFieldType, true⟩, ⟨"source", "string", true⟩,
        ⟨"prefix", "string", false⟩] with timeoutSeconds := 12 * 60 * 60 }, .execUpload),
  ({ actionDef "action.dhSnapshot" "DH Snapshot" ["onComplete", "onFailed"] []
      [⟨"folder", "Staged folder", "string"⟩, ⟨"bytesChanged", "Bytes changed", "number"⟩,
        ⟨"partsChanged", "Parts changed", "number"⟩, ⟨"partsTotal", "Parts in all", "number"⟩,
        ⟨"downtime", "Downtime (s)", "number"⟩]
      [⟨"destination", destinationFieldType, false⟩, ⟨"prefix", "string", false⟩,
        ⟨"output", "string", false⟩, ⟨"leadSeconds", "number", false⟩,
        ⟨"message", "string", false⟩] with timeoutSeconds := 3 * 60 * 60 }, .execDHSnapshot),
  ({ actionDef dhPublishBlockID "Publish DH Snapshot" ["onComplete", "onFailed"]
      [⟨"folder", "Staged folder", "string"⟩]
      [⟨"url", "Snapshot URL", "string"⟩, ⟨"partsUploaded", "Parts uploaded", "number"⟩,
        ⟨"partsSkipped", "Parts skipped", "number"⟩, ⟨"bytesSent", "Bytes sent", "number"⟩,
        ⟨"levelsAssembled", "Levels assembled", "number"⟩,
        ⟨"snapshotsDeleted", "Snapshots deleted", "number"⟩,
        ⟨"partsDeleted", "Parts deleted", "number"⟩, ⟨"bytesFreed", "Bytes freed", "number"⟩]
      [⟨"destination", destinationFieldType, true⟩, ⟨"prefix", "string", false⟩,
        ⟨"folder", "string", false⟩, ⟨"keep", "number", false⟩]
      with timeoutSeconds := 12 * 60 * 60 }, .execDHPublish)]

/-- The blocks of `registerBuiltins` and `registerDataBuiltins`. -/
def nativeBlocks : List (BlockDef × Executor) :=
  named triggerBlocks [.triggerNoOp, .triggerRouted, .triggerNoOp, .triggerNoOp, .triggerNoOp,
    .triggerNoOp, .triggerNoOp] ++
  named (actionBlocks idleHost) [.execCommand, .execRcon, .execWriteAttribute, .execNotify,
    .execCondition] ++
  otherBlocks ++
  named (dataBlocks idleHost) [.execServerAttribute, .execConstant, .execRandomNumber, .execMathOp]

/-- The executors. What is not embedded is given. -/
def nativeExecutor {W : Type} (h : Host W) (other : Executor → ExecFunc W) : Executor → ExecFunc W
  | .triggerNoOp => triggerNoOp
  | .triggerRouted => triggerRouted
  | .execCommand => execCommand h
  | .execRcon => execRcon h
  | .execWriteAttribute => execWriteAttribute h
  | .execNotify => execNotify h
  | .execCondition => execCondition
  | .execServerAttribute => execServerAttribute
  | .execConstant => execConstant
  | .execRandomNumber => execRandomNumber h
  | .execMathOp => execMathOp
  | x => other x

/-! ## The manifest files -/

/-- A manifest file, as `readManifestFile` reads it. -/
structure ManifestFile where
  path : String
  content : Except String (List BlockDef)

section

variable {W : Type} (execs : Executor → ExecFunc W)

/-- One block of a manifest file: registered under its primitive, or a warning. -/
def loadBlock (path : String) (acc : BlockRegistry W × List String) (blockDef : BlockDef) :
    BlockRegistry W × List String :=
  let blockDef := { blockDef with source := "manifest" }
  match primitiveMap blockDef.primitive with
  | none => (acc.1, acc.2 ++ ["manifest " ++ path ++ " block " ++ quote blockDef.id ++
      ": unknown primitive " ++ quote blockDef.primitive])
  | some x => match acc.1.registerBlock blockDef (execs x) with
    | .ok r => (r, acc.2)
    | .error m => (acc.1, acc.2 ++ ["manifest " ++ path ++ " block " ++ quote blockDef.id ++ ": " ++
        m ++ " (native wins)"])

def loadFile (acc : BlockRegistry W × List String) (file : ManifestFile) :
    BlockRegistry W × List String :=
  match file.content with
  | .error m => (acc.1, acc.2 ++ ["manifest " ++ file.path ++ ": " ++ m])
  | .ok defs => defs.foldl (loadBlock execs file.path) acc

/-- `LoadManifests`: the registry and the warnings. -/
def loadManifests (files : List ManifestFile) (r : BlockRegistry W) :
    BlockRegistry W × List String :=
  files.foldl (loadFile execs) (r, [])

/-- Blocks bound to their executors. -/
def bound (blocks : List (BlockDef × Executor)) : List (BlockDef × ExecFunc W) :=
  blocks.map fun b => (b.1, execs b.2)

/-- The registry of the scheduler. -/
def schedulerRegistry (files : List ManifestFile) : BlockRegistry W :=
  (loadManifests execs files (registerAll (bound execs nativeBlocks) ∅)).1

end

/-- The blocks of manifest files that name a primitive. -/
def manifestBlocks (files : List ManifestFile) : List (BlockDef × Executor) :=
  files.flatMap fun file => match file.content with
    | .error _ => []
    | .ok defs => defs.filterMap fun blockDef =>
      (primitiveMap blockDef.primitive).map fun x => ({ blockDef with source := "manifest" }, x)

/-- The block that is registered under an id, and its executor. -/
def registered (files : List ManifestFile) (id : String) : Option (BlockDef × Executor) :=
  (nativeBlocks ++ manifestBlocks files).find? (·.1.id == id)

end Konnekt.Scheduler
