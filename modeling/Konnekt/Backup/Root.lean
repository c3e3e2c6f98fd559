import Konnekt.Backup.Archive
import Konnekt.Go.Resolve
import Konnekt.Run.Labelled

/-!
# The backups of a server

The archives of a server stand in a folder for whole servers, in one for each world,
and, from before these two, in the root above them. An archive is found by its name
alone: the folders are searched in this order, and a new archive gets a name that
none of them holds.
-/

namespace Konnekt.Backup

open Go

/-! ## Names -/

/-- The date and time in the name of an archive. -/
structure Stamp where
  day : Fin 100
  month : Fin 100
  year : Fin 100
  hour : Fin 100
  minute : Fin 100
  second : Fin 100
  deriving DecidableEq, Repr

/-- The last digits of a number, with zeros before them. -/
def padded (width n : Nat) : String :=
  String.ofList ((List.range width).reverse.map fun i => digitChar (n / 10 ^ i % 10))

/-- `newBackupName`, of the id and the time that are drawn. -/
def newBackupName (draw : Fin 100000 × Stamp) : String :=
  padded 5 draw.1 ++ "_" ++ padded 2 draw.2.day ++ "_" ++ padded 2 draw.2.month ++ "_" ++
    padded 2 draw.2.year ++ "_" ++ padded 2 draw.2.hour ++ padded 2 draw.2.minute ++
    padded 2 draw.2.second ++ ".zip"

/-- `validateFilename`. -/
def validateFilename (filename : String) : Option String :=
  if filename ≠ Path.base filename ∨ filename.toList.any (fun c => c == '/' || c == '\\') then
    some "invalid backup filename"
  else if ¬ ".zip".toList <:+ filename.toList then some "invalid backup filename"
  else none

/-- `isServerFilename`. -/
def isServerFilename (filename : String) : Bool :=
  7 ≤ filename.utf8ByteSize && (filename.toList.take 5).length == 5 &&
    (filename.toList.take 5).all (fun c => decide ('0' ≤ c ∧ c ≤ '9')) &&
      filename.toList[5]? == some '_'

/-! ## Finding an archive -/

/-- What `findBackupFile` gives; paths are those below the root of the backups. -/
structure FoundBackup where
  filePath : List String
  metaDir : List String
  kind : String
  world : String
  deriving DecidableEq, Repr

def isThere (t : Tree) (path : List String) : Bool := (t.lookup path).isSome

/-- The folders of `worlds`. -/
def worldDirs (t : Tree) : List String :=
  ((readDir t ["worlds"]).filter (·.isDir)).map (·.name)

/-- `findBackupFile`. -/
def findBackupFile (t : Tree) (filename : String) : Option FoundBackup :=
  if isThere t ["server", filename] then
    some ⟨["server", filename], ["server"], "server", ""⟩
  else match (worldDirs t).find? fun world => isThere t ["worlds", world, filename] with
    | some world => some ⟨["worlds", world, filename], ["worlds", world], "world", world⟩
    | none =>
      if isThere t [filename] then
        some ⟨[filename], [], if isServerFilename filename then "server" else "world", ""⟩
      else none

/-! ## Reserving a name -/

/-- `backupNameTaken`. -/
def backupNameTaken (t : Tree) (name : String) : Bool :=
  ([[], ["server"]] ++ (worldDirs t).map (["worlds", ·])).any fun dir => isThere t (dir ++ [name])

/-- `reserveBackupFile`, with the attempts that are left and what they draw. -/
def reserveBackupFile (dir : List String) (t : Tree) :
    List (Fin 100000 × Stamp) → Except String (String × Tree)
  | [] => .error "no free backup filename after 10 attempts"
  | draw :: draws =>
    let name := newBackupName draw
    if backupNameTaken t name then reserveBackupFile dir t draws
    else if isThere t (dir ++ [name]) then reserveBackupFile dir t draws
    else if dir = [] ∨ t.lookup dir = some .dir then .ok (name, t.insert (dir ++ [name]) (.file []))
    else .error "no such file or directory"

/-! ## The calls -/

/-- How far a backup gets with the archive it has reserved: it finishes with the bytes of the
archive and of the metadata, if it writes any, or it fails, where the archive is removed or, if
that fails too, left. -/
inductive BackupEnd where
  | completes (data : List UInt8) (info : Option (List UInt8))
  | fails (left : Option (List UInt8))
  deriving DecidableEq, Repr

/-- `models.Backup`, as far as it says which archive it is. -/
structure MadeBackup where
  filename : String
  kind : String
  world : String
  deriving DecidableEq, Repr

/-- `saveMeta`, whose error is dropped. -/
def writeMeta (dir : List String) (info : Option (List UInt8)) (t : Tree) : Tree :=
  match info with
  | none => t
  | some data =>
    match t.writeFile (dir ++ ["meta.json"]) data with
    | .ok t => t
    | .error _ => t

/-- What `CreateBackup` and `CreateWorldBackup` do in the folder of the archive; the name is tried
ten times. -/
def createBackupIn (dir : List String) (kind world : String) (draws : Fin 10 → Fin 100000 × Stamp)
    (result : BackupEnd) (t : Tree) : Option MadeBackup × Tree :=
  match t.mkdirAll dir with
  | .error _ => (none, t)
  | .ok t =>
    match reserveBackupFile dir t (List.ofFn draws) with
    | .error _ => (none, t)
    | .ok (name, t) =>
      match result with
      | .completes data info =>
        (some ⟨name, kind, world⟩, writeMeta dir info (t.insert (dir ++ [name]) (.file data)))
      | .fails none => (none, t.erase (dir ++ [name]))
      | .fails (some data) => (none, t.insert (dir ++ [name]) (.file data))

/-- `worldSiblings`, as paths. -/
def worldRoots (workingDir name : String) : List String :=
  Path.join [workingDir, name] :: ["_nether", "_the_end"].map fun suffix =>
    Path.join [workingDir, name ++ suffix]

/-- `worldBackupDir`, below the root of the backups. -/
def worldBackupDir (worldName : String) : List String := joinClean ["worlds"] worldName

/-- `os.Remove`. -/
def remove (t : Tree) (path : List String) : Tree :=
  match t.lookup path with
  | none => t
  | some (.file _) => t.erase path
  | some .dir => if (readDir t path).isEmpty then t.erase path else t

/-- `DeleteBackup`, and what it saves as the metadata. -/
def deleteBackup (filename : String) (info : Option (List UInt8)) (t : Tree) : Tree :=
  if (validateFilename filename).isSome then t
  else match findBackupFile t filename with
    | none => t
    | some found => remove (writeMeta found.metaDir info t) found.filePath

/-- The calls on the backups of a server. -/
inductive BackupCall where
  | createBackup (draws : Fin 10 → Fin 100000 × Stamp) (result : BackupEnd)
  /-- In the working directory of the moment, where some paths are directories. -/
  | createWorldBackup (workingDir : String) (isDir : String → Bool) (worldName : String)
    (draws : Fin 10 → Fin 100000 × Stamp) (result : BackupEnd)
  | deleteBackup (filename : String) (info : Option (List UInt8))

/-- `CreateBackup`, `CreateWorldBackup` and `DeleteBackup`. -/
def BackupCall.act : BackupCall → Tree → Option MadeBackup × Tree
  | .createBackup draws result, t => createBackupIn ["server"] "server" "" draws result t
  | .createWorldBackup workingDir isDir worldName draws result, t =>
    match (worldRoots workingDir worldName).filter isDir with
    | [] => (none, t)
    | root :: _ =>
      if Path.base root ≠ worldName then (none, t)
      else createBackupIn (worldBackupDir worldName) "world" worldName draws result t
  | .deleteBackup filename info, t => (none, Konnekt.Backup.deleteBackup filename info t)

/-- The backups of a server, one call after the other. -/
def backupCalls : Labelled.System Tree BackupCall (Option MadeBackup) where
  act := BackupCall.act
  enabled _ _ := True

end Konnekt.Backup
