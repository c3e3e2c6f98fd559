import Konnekt.Go.Text
import Konnekt.Run.Threads

/-!
# The list of server configurations

`servers.json` holds every server. A save and a delete read the whole list and
write it back changed, and a loader update saves a copy it read when it started.
Nothing orders the reads and the writes of one call against those of another.
-/

namespace Konnekt.Server

open Go Threads

/-- `models.ServerConfig`. -/
structure ServerConfig where
  id : String
  name : String := ""
  jarPath : String := ""
  jvmArgs : List String := []
  workingDir : String := ""
  mcVersion : String := ""
  loader : String := ""
  loaderVersion : String := ""
  deriving DecidableEq, Repr

/-! ## Versions -/

/-- The digits a text starts with, if there are any, taken off. -/
def afterDigits (s : List Char) : Option (List Char) :=
  if (s.takeWhile Char.isDigit).isEmpty then none else some (s.dropWhile Char.isDigit)

/-- What may follow the numbers of a release. -/
def isReleaseSuffix : List Char → Bool
  | [] => true
  | '-' :: 'p' :: 'r' :: 'e' :: s => afterDigits s == some []
  | '-' :: 'r' :: 'c' :: s => afterDigits s == some []
  | _ => false

/-- `reMCRelease`. -/
def isMCRelease : List Char → Bool
  | '1' :: '.' :: s =>
    match afterDigits s with
    | none => false
    | some ('.' :: s) =>
      match afterDigits s with
      | none => false
      | some s => isReleaseSuffix s
    | some s => isReleaseSuffix s
  | _ => false

/-- `reMCSnapshot`. -/
def isMCSnapshot : List Char → Bool
  | [a, b, 'w', c, d, e] =>
    a.isDigit && b.isDigit && c.isDigit && d.isDigit && ('a' ≤ e && e ≤ 'z')
  | _ => false

def isMCVersion (v : String) : Bool := isMCRelease v.toList || isMCSnapshot v.toList

/-- `sanitizeTarget`, of a whole configuration. -/
def sanitizeTarget (cfg : ServerConfig) : ServerConfig :=
  if cfg.mcVersion ≠ "" ∧ isMCVersion cfg.mcVersion = false then
    { cfg with mcVersion := "", loader := "" }
  else cfg

/-- `mcVersionForNeoForge`. -/
def mcVersionForNeoForge (version : String) : String :=
  match split ((split version '-').headD "") '.' with
  | major :: minor :: build :: _ =>
    match atoi major, atoi minor, atoi build with
    | some major, some minor, some _ =>
      if minor = 0 then "1." ++ toString major else "1." ++ toString major ++ "." ++ toString minor
    | _, _, _ => ""
  | _ => ""

/-- The versions an update records in a configuration. -/
def recordVersion (version : String) (cfg : ServerConfig) : ServerConfig :=
  let mc := mcVersionForNeoForge version
  { cfg with loaderVersion := version, mcVersion := if mc ≠ "" then mc else cfg.mcVersion }

/-! ## The list -/

/-- `GetServerConfig`: the first configuration with the id. -/
def getServerConfig (id : String) (configs : List ServerConfig) : Option ServerConfig :=
  configs.find? fun c => c.id = id

/-- `validServerID`. -/
def validServerID (id : String) : Bool :=
  id ∉ ["", ".", ".."] && '/' ∉ id.toList && '\\' ∉ id.toList

/-- The list `SaveServerConfig` writes: the first configuration with the id is replaced, and
without one the new one is added. -/
def putConfig (cfg : ServerConfig) : List ServerConfig → List ServerConfig
  | [] => [cfg]
  | c :: configs => if c.id = cfg.id then cfg :: configs else c :: putConfig cfg configs

/-- The list `DeleteServerConfig` writes. -/
def removeConfig (id : String) (configs : List ServerConfig) : List ServerConfig :=
  configs.filter fun c => c.id ≠ id

/-! ## Calls -/

/-- What a call is about to write: a configuration, the list without a server, or the versions of
an update in the copy it has kept. -/
inductive ConfigWrite where
  | put (cfg : ServerConfig)
  | remove (id : String)
  | record (copy : ServerConfig) (version : String)
  deriving DecidableEq, Repr

/-- The server a write is about. -/
def ConfigWrite.id : ConfigWrite → String
  | .put cfg => cfg.id
  | .remove id => id
  | .record copy _ => copy.id

/-- What is written over the list that was read. -/
def ConfigWrite.apply (configs : List ServerConfig) : ConfigWrite → List ServerConfig
  | .put cfg => putConfig cfg configs
  | .remove id => removeConfig id configs
  | .record copy version => putConfig (sanitizeTarget (recordVersion version copy)) configs

/-- The calls, and what each has still to do. -/
inductive ConfigCall where
  | save (cfg : ServerConfig)
  | delete (id : String)
  /-- A loader update, with the loader it finds the server to run. -/
  | update (id version loader : String)
  /-- The background work of an update, with its copy of the configuration. -/
  | updating (copy : ServerConfig) (version : String)
  | writing (w : ConfigWrite) (read : List ServerConfig)
  | returned

/-- The file, and what has been written to it, the last write first. -/
structure ConfigStore where
  file : List ServerConfig
  written : List ConfigWrite
  deriving DecidableEq, Repr

/-- A read or a write of a call. An update may fail in its background work. -/
inductive ConfigCall.Step :
    ConfigCall → ConfigStore → ConfigCall → ConfigStore → List ConfigCall → Prop
  | save {s : ConfigStore} (cfg : ServerConfig) :
      Step (.save cfg) s
        (if validServerID cfg.id then .writing (.put (sanitizeTarget cfg)) s.file else .returned)
        s []
  | delete {s : ConfigStore} (id : String) :
      Step (.delete id) s (.writing (.remove id) s.file) s []
  | update {s : ConfigStore} (id version loader : String) :
      Step (.update id version loader) s
        (match getServerConfig id s.file with
          | some cfg => .updating { cfg with loader := loader } version
          | none => .returned) s []
  | fail {s : ConfigStore} (copy : ServerConfig) (version : String) :
      Step (.updating copy version) s .returned s []
  | finish {s : ConfigStore} (copy : ServerConfig) (version : String) :
      Step (.updating copy version) s
        (if validServerID copy.id then .writing (.record copy version) s.file else .returned) s []
  | write {s : ConfigStore} (w : ConfigWrite) (read : List ServerConfig) :
      Step (.writing w read) s .returned ⟨w.apply read, w :: s.written⟩ []

/-- The calls from outside. -/
def ConfigCall.isCall : ConfigCall → Prop
  | .save _ | .delete _ | .update _ _ _ => True
  | .updating _ _ | .writing _ _ | .returned => False

/-- The calls on the configurations. -/
def configProgram : Program ConfigStore ConfigCall where
  step := ConfigCall.Step
  begins := ConfigCall.isCall

/-- The file before any of the calls. -/
def initialConfigs (file : List ServerConfig) : Config ConfigStore ConfigCall :=
  ⟨⟨file, []⟩, []⟩

/-! ## What the calls are for -/

/-- What a write is to make of a server: a save puts its fields there, a delete takes the server
away, and an update changes the fields of its versions in whatever is there. -/
def ConfigWrite.intended (id : String) (cfg : Option ServerConfig) (w : ConfigWrite) :
    Option ServerConfig :=
  if w.id = id then
    match w with
    | .put cfg => some cfg
    | .remove _ => none
    | .record copy version =>
      cfg.map fun c => sanitizeTarget (recordVersion version { c with loader := copy.loader })
  else cfg

/-- A server after writes made one after the other, the last one first. -/
def intendedConfig (file : List ServerConfig) (id : String) : List ConfigWrite → Option ServerConfig
  | [] => getServerConfig id file
  | w :: written => w.intended id (intendedConfig file id written)

end Konnekt.Server
