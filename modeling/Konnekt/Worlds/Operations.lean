import Konnekt.Go.Map
import Konnekt.Worlds.WorkingDir

/-!
# World operations

Deleting, renaming and duplicating the worlds of a server, and choosing the active
one. A world is a folder with a `level.dat`; the folders of its other dimensions
are told by the endings of their names.
-/

namespace Konnekt.Worlds

open Go

/-! ## Properties -/

/-- The key and value of a line, unless it is blank, a comment or has none. -/
def propertyOf (line : String) : Option (String × String) :=
  let line := trimSpace line
  if line = "" ∨ ['#'] <+: line.toList then none
  else (cutAt '=' line).map fun (k, v) => (trimSpace k, trimSpace v)

/-- `readProperties`, as far as the reading got. -/
def readProperties : PropertiesFile → GoMap String
  | .missing | .unreadable _ => ∅
  | .lines ls _ => GoMap.ofList (ls.filterMap propertyOf)

/-- The world `level-name` names, or its default. -/
def levelName (properties : PropertiesFile) : String :=
  let active := ((readProperties properties).lookup "level-name").getD ""
  if active = "" then "world" else active

/-- The lines `writeProperty` writes. -/
def setProperty (key value : String) (ls : List String) : List String :=
  let line := key ++ "=" ++ value
  let lines := ls.map fun l => if (propertyOf l).map (·.1) = some key then line else l
  if ls.any fun l => (propertyOf l).map (·.1) = some key then lines else lines ++ [line]

def hasLineBreak (s : String) : Bool := s.toList.any fun c => c = '\r' || c = '\n'

/-- `writeProperty`. -/
def writeProperty (fault : Option String) (key value : String) (properties : PropertiesFile) :
    Except String PropertiesFile :=
  if hasLineBreak key || hasLineBreak value then .error "property value must be a single line"
  else match properties, fault with
    | .unreadable err, _ => .error err
    | .lines _ (some err), _ => .error err
    | _, some err => .error err
    | .missing, none => .ok (.lines (setProperty key value []) none)
    | .lines ls none, none => .ok (.lines (setProperty key value ls) none)

/-! ## Names -/

/-- `windowsDeviceNames`. -/
def windowsDeviceNames : List String :=
  ["CON", "PRN", "AUX", "NUL"] ++
    ["COM", "LPT"].flatMap fun d => ["1", "2", "3", "4", "5", "6", "7", "8", "9"].map (d ++ ·)

/-- `unicode.IsControl`. -/
def isControl (c : Char) : Bool := c.toNat < 0x20 || (0x7F ≤ c.toNat && c.toNat < 0xA0)

/-- The name up to its first dot, the spaces before it trimmed, in upper case. -/
def deviceName (name : String) : String :=
  let stem := name.toList.takeWhile (· ≠ '.')
  String.ofList ((stem.reverse.dropWhile (· = ' ')).reverse.map Char.toUpper)

/-- `validateWorldName`. -/
def validateWorldName (name : String) : Except String Unit :=
  if name = "" ∨ name = "." ∨ name = ".." then .error "invalid world name"
  else if name.toList.any fun c => c ∈ ['/', '\\'] then
    .error "invalid world name: must be a plain folder name"
  else if name.toList.any fun c => c ∈ [':', '*', '?', '"', '<', '>', '|'] || isControl c then
    .error "invalid world name: contains a character Windows does not allow in a folder name"
  else if name.toList.getLast? = some '.' ∨ name.toList.getLast? = some ' ' then
    .error "invalid world name: must not end in a dot or a space"
  else if deviceName name ∈ windowsDeviceNames then
    .error "invalid world name: reserved device name"
  else .ok ()

/-- The endings of the folders of a world. -/
def suffixes : List String := ["", "_nether", "_the_end"]

/-! ## Worlds of a directory -/

section

variable (fold : String → String) (w : WorkingDir)

/-- `isWorldDir`. -/
def isWorldDir (name : String) : Bool :=
  match w.lstat fold name with
  | some (.dir files) => (files.lookup [fold "level.dat"]).isSome
  | _ => false

/-- `requireWorld`. -/
def requireWorld (name : String) : Except String Unit :=
  if isWorldDir fold w name then .ok () else .error s!"world {quote name} not found"

/-- `server.properties`, unless a folder stands in its place. -/
def propertiesFile : PropertiesFile :=
  match w.stat fold "server.properties" with
  | some (_, .dir _) => .lines [] (some "is a directory")
  | _ => w.properties

/-- `isActiveWorld`. -/
def isActiveWorld (name active : String) : Bool := name == active || w.sameFile fold name active

end

/-! ## Operations -/

/-- What a call meets: whether the server runs, and which of its operations on the disk fail. -/
structure Attempt where
  running : Bool := false
  /-- The error of `GetServerConfig`. -/
  config : Option String := none
  /-- The error of `PrepareForBackup`. -/
  prepare : Option String := none
  remove : String → Option (String × Tree) := fun _ => none
  rename : String → Option String := fun _ => none
  copy : String → Option CopyFault := fun _ => none
  write : Option String := none

section

variable (fold : String → String) (attempt : Attempt)

/-- What every operation checks of its names, of the server and of its configuration. -/
def checkCall (names : List String) (refusal : Option String) : Except String Unit := do
  names.forM validateWorldName
  if let (true, some err) := (attempt.running, refusal) then .error err
  if let some err := attempt.config then .error err

/-- The loop of `DeleteWorld`. -/
def removeSiblings (name : String) : List String → WorkingDir → Except String Unit × WorkingDir
  | [], w => (.ok (), w)
  | suffix :: rest, w =>
    match w.stat fold (name ++ suffix) with
    | none => removeSiblings name rest w
    | some _ =>
      match w.removeAll fold (attempt.remove suffix) (name ++ suffix) with
      | (.error err, w) => (.error ("delete " ++ quote (w.join (name ++ suffix)) ++ ": " ++ err), w)
      | (.ok _, w) => removeSiblings name rest w

/-- `DeleteWorld`. -/
def deleteWorld (name : String) (w : WorkingDir) : Except String Unit × WorkingDir :=
  let checked := do
    checkCall attempt [name] (some "stop the server before deleting a world")
    requireWorld fold w name
    if isActiveWorld fold w name (levelName (propertiesFile fold w)) then
      .error "cannot delete the active world; switch to another world first"
  match checked with
  | .error err => (.error err, w)
  | .ok _ => removeSiblings fold attempt name suffixes w

/-- The loop of `RenameWorld`. -/
def renameSiblings (old new : String) : List String → WorkingDir → Except String Unit × WorkingDir
  | [], w => (.ok (), w)
  | suffix :: rest, w =>
    match w.stat fold (old ++ suffix) with
    | none => renameSiblings old new rest w
    | some _ =>
      match w.rename fold (attempt.rename suffix) (old ++ suffix) (new ++ suffix) with
      | .error err => (.error ("rename " ++ quote (w.join (old ++ suffix)) ++ ": " ++ err), w)
      | .ok w => renameSiblings old new rest w

/-- What a rename and a duplication check of the new name. -/
def requireNew (w : WorkingDir) (new : String) : Except String Unit :=
  if (w.stat fold new).isSome then .error s!"a world named {quote new} already exists" else .ok ()

/-- The end of `RenameWorld`: an active world stays the active one. -/
def keepActive (old new active : String) (w : WorkingDir) : Except String Unit × WorkingDir :=
  if isActiveWorld fold w old active then
    match writeProperty attempt.write "level-name" new (propertiesFile fold w) with
    | .error err => (.error ("world folder renamed but level-name update failed: " ++ err), w)
    | .ok properties => (.ok (), { w with properties })
  else (.ok (), w)

/-- `RenameWorld`. -/
def renameWorld (old new : String) (w : WorkingDir) : Except String Unit × WorkingDir :=
  let checked := do
    checkCall attempt [old, new] (some "stop the server before renaming a world")
    requireWorld fold w old
    requireNew fold w new
  match [old, new].forM validateWorldName with
  | .error err => (.error err, w)
  | .ok _ =>
    if old = new then (.ok (), w)
    else match checked with
      | .error err => (.error err, w)
      | .ok _ =>
        match renameSiblings fold attempt old new suffixes w with
        | (.error err, w) => (.error err, w)
        | (.ok _, renamed) =>
          keepActive fold attempt old new (levelName (propertiesFile fold w)) renamed

/-- The loop of `DuplicateWorld`. -/
def copySiblings (name new : String) : List String → WorkingDir → Except String Unit × WorkingDir
  | [], w => (.ok (), w)
  | suffix :: rest, w =>
    match w.stat fold (name ++ suffix) with
    | none => copySiblings name new rest w
    | some _ =>
      match copyDir fold w (attempt.copy suffix) attempt.running (name ++ suffix) (new ++ suffix) with
      | (.error err, w) => (.error ("duplicate " ++ quote suffix ++ ": " ++ err), w)
      | (.ok _, w) => copySiblings name new rest w

/-- `DuplicateWorld`; the saves of a running server are paused around the copy. -/
def duplicateWorld (name new : String) (w : WorkingDir) : Except String Unit × WorkingDir :=
  let checked := do
    checkCall attempt [name, new] none
    requireWorld fold w name
    requireNew fold w new
    if let some err := attempt.prepare then .error ("could not pause world saves: " ++ err)
  match checked with
  | .error err => (.error err, w)
  | .ok _ => copySiblings fold attempt name new suffixes w

/-- `SetActiveWorld`. -/
def setActiveWorld (name : String) (w : WorkingDir) : Except String Unit × WorkingDir :=
  let checked := do
    checkCall attempt [name] (some "stop the server before switching worlds")
    requireWorld fold w name
    writeProperty attempt.write "level-name" name (propertiesFile fold w)
  match checked with
  | .error err => (.error err, w)
  | .ok properties => (.ok (), { w with properties })

/-- A call of a world operation. -/
inductive Call where
  | delete (name : String)
  | rename (old new : String)
  | duplicate (name new : String)
  | setActive (name : String)
  deriving DecidableEq, Repr

/-- What a call answers, and the directory after it. -/
def Call.run : Call → WorkingDir → Except String Unit × WorkingDir
  | .delete name => deleteWorld fold attempt name
  | .rename old new => renameWorld fold attempt old new
  | .duplicate name new => duplicateWorld fold attempt name new
  | .setActive name => setActiveWorld fold attempt name

end

/-- The directory after a sequence of calls. -/
def runCalls (fold : String → String) (calls : List (Call × Attempt)) (w : WorkingDir) :
    WorkingDir :=
  calls.foldl (fun w c => (c.1.run fold c.2 w).2) w

end Konnekt.Worlds
