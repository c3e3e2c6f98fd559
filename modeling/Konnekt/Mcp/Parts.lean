import Konnekt.Go.Number
import Konnekt.Server.Instance

/-!
# What the tools read

The records of the parts behind the bound methods, and the methods that put several of
them together: the roster, the listing of the worlds and the end of the server log.
-/

namespace Konnekt.Mcp

open Go

/-! ## Records -/

structure ConsoleLine where
  timestamp : String
  line : String
  source : String
  outcome : String
  deriving DecidableEq, Repr

structure ServerStatus where
  running : Bool
  state : String
  uptime : String
  players : Int
  maxPlayers : Int
  tps : Float64
  ramUsed : Float64
  ramTotal : Float64

structure ServerSummary where
  mcVersion : String
  loader : String
  running : Bool
  loaderVersion : String
  loaderSource : String
  deriving DecidableEq, Repr

structure StatsSnapshot where
  timestamp : Int
  tps : Float64
  ramUsedMB : Float64
  ramTotalMB : Float64
  cpuPercent : Float64
  players : Int

structure Player where
  name : String
  uuid : String := ""
  online : Bool := false
  lastOnline : Int := 0
  opLevel : Int := 0
  whitelisted : Bool := false
  banned : Bool := false
  banReason : String := ""
  deriving DecidableEq, Repr

structure Backup where
  filename : String
  createdAt : Int
  sizeBytes : Int
  displayName : String := ""
  tags : List String := []
  kind : String
  world : String := ""
  lodsSkipped : Bool := false
  deriving DecidableEq, Repr

structure WorldDimension where
  kind : String
  size : Int
  modified : Int
  deriving DecidableEq, Repr

/-- What `level.dat` says; nothing when it cannot be read. -/
structure WorldMeta where
  levelName : String := ""
  version : String := ""
  gameMode : String := ""
  difficulty : String := ""
  hardcore : Bool := false
  lastPlayed : Int := 0
  deriving DecidableEq, Repr

structure WorldSystem where
  name : String
  active : Bool
  totalSize : Int
  modified : Int
  dimensions : List WorldDimension
  info : WorldMeta
  deriving DecidableEq, Repr

structure ConfigFile where
  relPath : String
  category : String
  source : String
  format : String
  sizeBytes : Int
  modified : Int
  deriving DecidableEq, Repr

structure InstalledMod where
  fileName : String
  displayName : String
  modID : String
  versionNumber : String
  targetFolder : String
  enabled : Bool
  loader : String
  source : String
  projectID : String
  deriving DecidableEq, Repr

/-! ## Players -/

structure OpsEntry where
  name : String
  level : Int
  deriving DecidableEq, Repr

structure BannedPlayerEntry where
  name : String
  reason : String
  deriving DecidableEq, Repr

/-- The sessions of one server, and the lists in its directory; `lastPlayed` has the times of
the files under `playerdata`. -/
structure Roster where
  online : List (String × Server.PlayerSession)
  ops : List OpsEntry
  whitelist : List String
  bans : List BannedPlayerEntry
  lastPlayed : String → Option Int

section Roster

variable (toLower : String → String)

/-- `opsIndex`, `whitelistIndex`, `banIndex`: of several entries with one name the last counts. -/
def nameIndex {α : Type} (name : α → String) (entries : List α) : GoMap α :=
  GoMap.ofList (entries.map fun e => (toLower (name e), e))

def decorate (r : Roster) (p : Player) : Player :=
  let key := toLower p.name
  let p := match (nameIndex toLower OpsEntry.name r.ops).lookup key with
    | some op => { p with opLevel := op.level }
    | none => p
  let p := match (nameIndex toLower id r.whitelist).lookup key with
    | some _ => { p with whitelisted := true }
    | none => p
  let p := match (nameIndex toLower BannedPlayerEntry.name r.bans).lookup key with
    | some ban => { p with banned := true, banReason := ban.reason }
    | none => p
  if p.uuid ≠ "" ∧ p.online = false then
    { p with lastOnline := (r.lastPlayed p.uuid).getD p.lastOnline }
  else p

/-- `GetRoster` of a server that is there. -/
def getRoster (r : Roster) : List Player :=
  r.online.map fun e => decorate toLower r { name := e.1, uuid := e.2.uuid, online := true }

end Roster

/-! ## Worlds -/

/-- A folder of the working directory: whether it holds a `level.dat`, what that says, and the
vanilla sub-dimensions inside. -/
structure WorldFolder where
  name : String
  isWorldDir : Bool
  size : Int
  modified : Int
  info : WorldMeta := {}
  inner : List WorldDimension := []
  deriving DecidableEq, Repr

/-- The folders of a working directory, its `level-name`, and the names of one folder. -/
structure WorldFolders where
  folders : List WorldFolder
  levelName : String
  sameFile : String → String → Bool

def classifyWorldDir (name : String) : String × String :=
  if "_the_end".toList <:+ name.toList then (trimSuffix name "_the_end", "the_end")
  else if "_nether".toList <:+ name.toList then (trimSuffix name "_nether", "nether")
  else (name, "overworld")

def WorldFolder.base (f : WorldFolder) : String := (classifyWorldDir f.name).1

def WorldFolders.activeName (w : WorldFolders) : String :=
  if w.levelName = "" then "world" else w.levelName

def WorldFolders.system (w : WorldFolders) (base : String) : WorldSystem :=
  let own := (w.folders.filter fun f => f.isWorldDir && f.base == base).map fun f =>
    { kind := (classifyWorldDir f.name).2, size := f.size, modified := f.modified : WorldDimension }
  let overworld := w.folders.find? fun f => f.name == base
  let inner := ((overworld.map WorldFolder.inner).getD []).filter fun d =>
    !own.any (·.kind == d.kind)
  { name := base
    active := base == w.activeName || w.sameFile base w.activeName
    totalSize := ((own ++ inner).map WorldDimension.size).sum
    modified := (own ++ inner).foldl (fun m d => max m d.modified) 0
    dimensions := own ++ inner
    info := (overworld.map WorldFolder.info).getD {} }

/-- `ListWorlds`: the source lists the bases in the order of a map, which is any. -/
def listWorlds (w : WorldFolders) : List WorldSystem :=
  ((w.folders.filter WorldFolder.isWorldDir).map WorldFolder.base).eraseDups.map w.system

/-! ## The server log -/

def serverLogMaxLines : Int := 500

def serverLogMaxBytes : Nat := 128 * 1024

def byteLength (s : List Char) : Nat := (s.map Char.utf8Size).sum

/-- What follows the first line break from the given byte on. -/
def afterCut : Nat → List Char → List Char
  | _, [] => []
  | left, c :: s => if left = 0 ∧ c = '\n' then s else afterCut (left - c.utf8Size) s

def lastLines (data : List Char) (n : Nat) : List String :=
  let text := trimSuffix (String.ofList data) "\n"
  if text = "" then []
  else
    let all := split text '\n'
    (all.drop (all.length - n)).map fun line => trimSuffix line "\r"

/-- `ReadServerLogTail` of the file's text; a log that does not exist is empty. -/
def readServerLogTail (text : String) (lines : Int) : List String :=
  let lines := if lines ≤ 0 ∨ serverLogMaxLines < lines then serverLogMaxLines else lines
  let start := byteLength text.toList - serverLogMaxBytes
  let data := if 0 < start then afterCut start text.toList else text.toList
  lastLines data lines.toNat

/-! ## Names of players -/

def playerNameMax : Nat := 16

def isNameChar (c : Char) : Bool := c.isAlphanum || c == '_'

/-- `ValidPlayerName`: a prefix, and then 1 to 16 letters, digits or underscores. -/
def validPlayerName (name : String) : Except String Unit :=
  match name.toList with
  | [] => .error "not a player name: it is empty"
  | c :: s =>
    let body := if c ∈ ".*+-~".toList then s else c :: s
    if body = [] ∨ playerNameMax < body.length then
      .error ("not a player name: " ++ quote name ++ " is not 1 to 16 characters")
    else match body.find? fun r => !isNameChar r with
      | some r => .error ("not a player name: " ++ quote name ++ " carries '" ++ r.toString ++ "'")
      | none => .ok ()

end Konnekt.Mcp
