import Konnekt.Go.Links

/-!
# Config files of a server

Which files of a working directory the config editor lists, and which paths it
lets through: the classifier both ask, the refusals of the gate, and the sandbox
that resolves a path on disk. Names are sequences of characters, and the
separator of the host is the slash.
-/

namespace Konnekt.ConfigEditor

open Go

/-! ## What the classifier takes -/

/-- The letter cases of the host language. -/
structure Letters where
  /-- `unicode.ToLower`. -/
  toLower : Char → Char
  /-- `strings.EqualFold`. -/
  equalFold : String → String → Bool

def configExtensions : List (String × String) :=
  [(".properties", "properties"), (".yml", "yaml"), (".yaml", "yaml"), (".toml", "toml"),
    (".json", "json"), (".json5", "json5"), (".conf", "text"), (".cfg", "text")]

/-- The config files expected directly in the working directory. -/
def serverRootNames : List String :=
  ["server.properties", "spigot.yml", "bukkit.yml", "paper.yml", "paper-global.yml",
    "paper-world-defaults.yml", "pufferfish.yml", "purpur.yml", "commands.yml", "help.yml",
    "permissions.yml"]

/-- `configLocation`. -/
structure ConfigLocation where
  category : String
  source : String
  format : String
  deriving DecidableEq, Repr

/-- `filepath.Ext`: from the last dot on, or nothing. -/
def ext (name : String) : String :=
  let after := name.toList.reverse.takeWhile (· ≠ '.')
  if '.' ∈ name.toList then String.ofList ('.' :: after.reverse) else ""

variable (u : Letters)

/-- `extFormat`. -/
def extFormat (name : String) : Option String :=
  configExtensions.lookup ((ext name).map u.toLower)

/-- `classifyConfigPath`: where the editor files a path, if it offers it. -/
def classifyConfigPath (rel : String) : Option ConfigLocation :=
  let parts := Path.parts rel
  match extFormat u (parts.getLastD "") with
  | none => none
  | some format =>
    match parts with
    | [name] => if name ∈ serverRootNames then some ⟨"server", "", format⟩ else none
    | [top, name] =>
      if top = "plugins" then some ⟨"plugins", "", format⟩
      else if top = "config" then
        if "paper-".toList <+: name.toList ∨ "purpur-".toList <+: name.toList then
          some ⟨"server", "", format⟩
        else some ⟨"mods", "", format⟩
      else none
    | [top, folder, _] =>
      if folder = "" ∨ ".".toList <+: folder.toList then none
      else if top = "plugins" then
        if u.equalFold folder "update" then none else some ⟨"plugins", folder, format⟩
      else if top = "config" then some ⟨"mods", folder, format⟩
      else none
    | _ => none

/-! ## The gate -/

/-- `unicode.IsControl`. -/
def isControl (c : Char) : Bool := c.toNat < 0x20 || (0x7F ≤ c.toNat && c.toNat < 0xA0)

/-- A segment the gate refuses on every platform. -/
def refusedSegment (seg : String) : Bool :=
  ':' ∈ seg.toList || seg.toList.getLast? == some '.' || seg.toList.getLast? == some ' ' ||
    seg.toList.any isControl

def errNotListedConfig : String := "not a config file the editor lists"

/-- `listedConfigPath`. -/
def listedConfigPath (relPath : String) : Except String Unit :=
  if relPath = "" ∨ Path.clean relPath ≠ relPath then .error errNotListedConfig
  else if (Path.parts relPath).any refusedSegment then .error errNotListedConfig
  else if classifyConfigPath u relPath = none then .error errNotListedConfig
  else .ok ()

/-! ## The listing -/

/-- The links the host follows when it opens a path. -/
def openLinks : Nat := 40

/-- The links `filepath.EvalSymlinks` follows. -/
def evalLinks : Nat := 255

/-- `models.ConfigFile`, without the size and the time. -/
structure ConfigFile where
  relPath : String
  name : String
  category : String
  source : String
  format : String
  deriving DecidableEq, Repr

/-- A working directory, which is not the root of the disk: its cleaned path, the path without
links that leads to, and what is below it when it is there. -/
structure WorkDir where
  path : List String
  plain : ∀ n ∈ path, Path.Plain n
  path_ne : path ≠ []
  real : List String
  real_ne : real ≠ []
  tree : Option LinkTree

/-- `os.ReadDir` of a path below the working directory. -/
def readDir (t : LinkTree) (path : List String) : Option (List (String × Kind)) :=
  match t.walk openLinks path with
  | .ok d => if t.kind d = some .dir then some (t.readDir d) else none
  | .error _ => none

/-- `makeConfigFile` of a name in a directory below the working directory. -/
def makeConfigFile (dir : List String) (name : String) (loc : ConfigLocation) : ConfigFile where
  relPath := Path.joinSlash (dir ++ [name])
  name := name
  category := loc.category
  source := loc.source
  format := loc.format

/-- `scan`. -/
def scan (entries : List (String × Kind)) (dir : List String) (relDir : String)
    (cats : List String) : List ConfigFile :=
  entries.filterMap fun e =>
    if e.2 = .dir then none
    else match classifyConfigPath u (Path.join [relDir, e.1]) with
      | some loc => if loc.category ∈ cats then some (makeConfigFile dir e.1 loc) else none
      | none => none

/-- `scanSub`: a folder that cannot be read has no entries. -/
def scanSub (t : LinkTree) (entries : List (String × Kind)) (dir : List String) (relDir : String) :
    List ConfigFile :=
  entries.flatMap fun e =>
    if e.2 = .dir then
      scan u ((readDir t (dir ++ [e.1])).getD []) (dir ++ [e.1]) (Path.join [relDir, e.1])
        ["plugins", "mods"]
    else []

/-- `ListConfigFiles` of a directory that is there. -/
def listTree (t : LinkTree) : List ConfigFile :=
  let rootEntries := (readDir t []).getD []
  let cfgEntries := (readDir t ["config"]).getD []
  let pEntries := (readDir t ["plugins"]).getD []
  scan u rootEntries [] "" ["server"] ++
    scan u cfgEntries ["config"] "config" ["server"] ++
    (scan u pEntries ["plugins"] "plugins" ["plugins"] ++
      scanSub u t pEntries ["plugins"] "plugins") ++
    (scan u cfgEntries ["config"] "config" ["mods"] ++
      scanSub u t cfgEntries ["config"] "config")

/-- `ListConfigFiles`. -/
def listConfigFiles (d : WorkDir) : List ConfigFile :=
  match d.tree with
  | none => []
  | some t => listTree u t

/-! ## The sandbox -/

/-- Why the sandbox refuses a path. -/
inductive SandboxError where
  | errOutsideWorkDir
  | eval (e : WalkError)
  deriving DecidableEq, Repr

/-- The text of an absolute path. -/
def absPath (parts : List String) : String := "/" ++ Path.joinSlash parts

/-- `withinDir`. -/
def withinDir (path dir : String) : Bool :=
  path = dir || (dir ++ "/").toList.isPrefixOf path.toList

/-- `filepath.EvalSymlinks` below the working directory. -/
def evalSymlinks (t : LinkTree) (path : List String) : Except WalkError (List String) :=
  t.walk evalLinks path

/-- `evalNearestExisting`, from the last name of the path up to the working directory. -/
def evalNearest (t : LinkTree) : List String → Except WalkError (List String)
  | [] => .ok []
  | n :: up =>
    match evalSymlinks t (up.reverse ++ [n]) with
    | .ok real => .ok real
    | .error .notExist => evalNearest t up
    | .error e => .error e

def evalNearestExisting (t : LinkTree) (path : List String) : Except WalkError (List String) :=
  evalNearest t path.reverse

/-- `sandbox`, with the parts of the path it returns. -/
def sandbox (d : WorkDir) (relPath : String) : Except SandboxError (List String) :=
  let clean := Path.cleanParts true (d.path ++ Path.parts relPath)
  if withinDir (absPath clean) (absPath d.path) then
    match d.tree with
    | none => .ok clean
    | some t =>
      match evalNearestExisting t (clean.drop d.path.length) with
      | .error e => .error (.eval e)
      | .ok real =>
        if withinDir (absPath (d.real ++ real)) (absPath d.real) then .ok clean
        else .error .errOutsideWorkDir
  else .error .errOutsideWorkDir

end Konnekt.ConfigEditor
