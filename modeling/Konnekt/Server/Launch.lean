import Konnekt.Go.Path

/-!
# How a server is launched

A server starts from its jar, from the java line of a launcher script, or from an
argfile under `libraries/`. Three functions walk this order over one directory: one
builds the arguments of `java`, one names the file they come from, and one reads the
build of the mod loader.
-/

namespace Konnekt.Server

open Go

/-! ## The files -/

/-- What the path functions of the platform depend on. -/
structure Platform where
  windows : Bool
  /-- `filepath.Dir`. -/
  dir : String → String

/-- The launcher scripts an installer writes. -/
inductive LaunchScript where
  | runSh | runBat
  deriving DecidableEq, Repr

def LaunchScript.name : LaunchScript → String
  | .runSh => "run.sh"
  | .runBat => "run.bat"

/-- A file as opening and reading it finds it. -/
inductive TextFile where
  | text (content : String)
  | unreadable
  deriving DecidableEq, Repr

/-- The loaders whose argfiles are looked for. -/
inductive Loader where
  | neoforge | forge
  deriving DecidableEq, Repr

/-- The argfile of a build, under the name of its directory. Without a time it cannot be
looked at. -/
structure Argfile where
  build : String
  modTime : Option Int
  deriving DecidableEq, Repr

/-- The files of a server's directory that say how it is launched. The argfiles are the
platform's own, as `filepath.Glob` lists them. -/
structure LaunchFiles where
  script : LaunchScript → Option TextFile
  userJvmArgs : Option TextFile
  argfiles : Loader → List Argfile

/-- The jars that are there, what the installers among them install, and the directories. -/
structure Disk where
  jarExists : String → Bool
  installer : String → Option String
  files : String → LaunchFiles

/-! ## Names of files -/

/-- Lower case of the ASCII letters, which is all a comparison with ASCII text needs. -/
def toLower (s : String) : String := String.ofList (s.toList.map lower)

/-- A path with slashes in the place of backslashes. -/
def slashes (path : String) : String :=
  String.ofList (path.toList.map fun c => if c = '\\' then '/' else c)

/-- `baseName`. -/
def baseName (path : String) : String := Path.base (slashes path)

/-- `filepath.Base`. -/
def Platform.base (p : Platform) (path : String) : String :=
  if p.windows then baseName path else Path.base path

/-- `launchScriptNames`. -/
def launchScriptNames (p : Platform) : List LaunchScript :=
  if p.windows then [.runBat, .runSh] else [.runSh, .runBat]

/-- `isLaunchScript`. -/
def isLaunchScript (path : String) : Bool :=
  path ≠ "" && ["run.sh", "run.bat", "run.cmd"].contains (toLower (baseName path))

/-- The extension of a path is `.jar`, in any case. -/
def isJar (path : String) : Bool :=
  ".jar".toList.isSuffixOf (toLower path).toList

/-! ## The java line of a script -/

/-- The longest line a scanner takes, in bytes. -/
def maxScanTokenSize : Nat := 64 * 1024

/-- The lines a `bufio.Scanner` yields, up to one that is too long. -/
def scanLines (content : String) : List String :=
  let lines := split content '\n'
  let lines := if lines.getLast? = some "" then lines.dropLast else lines
  (lines.takeWhile fun l => decide (l.utf8ByteSize < maxScanTokenSize)).map fun l => trimSuffix l "\r"

/-- `isScriptComment`. -/
def isScriptComment (line : String) : Bool :=
  let lower := toLower line
  (cutPrefix "#" line).isSome || (cutPrefix "::" line).isSome || lower == "rem" ||
    (cutPrefix "rem " lower).isSome

/-- `unquote`. -/
def unquote (t : String) : String :=
  let cs := t.toList
  if 2 ≤ cs.length ∧ (cs.head? = some '"' ∧ cs.getLast? = some '"' ∨
      cs.head? = some '\'' ∧ cs.getLast? = some '\'') then String.ofList (cs.drop 1).dropLast
  else t

/-- `javaTokenIndex`. -/
def javaTokenIndex (tokens : List String) : Option Nat :=
  tokens.findIdx? fun t => ["java", "java.exe"].contains (toLower (baseName (unquote t)))

/-- `isPassthroughToken`. -/
def isPassthroughToken (t : String) : Bool := ["$@", "$*", "%*"].contains t

/-- The arguments of java on one line of a script, if it has any. -/
def javaLine (line : String) : Option (List String) :=
  let line := trimSpace line
  if line = "" ∨ isScriptComment line then none
  else
    let tokens := fields line
    match javaTokenIndex tokens with
    | none => none
    | some idx =>
      let out := ((tokens.drop (idx + 1)).map unquote).filter fun t =>
        t ≠ "" && !isPassthroughToken t
      if out = [] then none else some out

/-- `parseLaunchScript`. -/
def parseLaunchScript : TextFile → Option (List String)
  | .text content => (scanLines content).findSome? javaLine
  | .unreadable => none

/-! ## The argfiles under `libraries/` -/

/-- The directories of a loader's builds. -/
def Loader.path : Loader → List String
  | .neoforge => ["libraries", "net", "neoforged", "neoforge"]
  | .forge => ["libraries", "net", "minecraftforge", "forge"]

def argfileName (p : Platform) : String := if p.windows then "win_args.txt" else "unix_args.txt"

/-- `strings.Join`. -/
def joinWith (sep : String) : List String → String
  | [] => ""
  | [s] => s
  | s :: t :: l => s ++ sep ++ joinWith sep (t :: l)

/-- The path of an argfile, relative to the server's directory. -/
def argfilePath (p : Platform) (loader : Loader) (build : String) : String :=
  joinWith (if p.windows then "\\" else "/") (loader.path ++ [build, argfileName p])

/-- One match of the search for the newest argfile. -/
def newerArgfile (newest : Option (String × Int)) (a : Argfile) : Option (String × Int) :=
  match a.modTime, newest with
  | none, newest => newest
  | some t, none => some (a.build, t)
  | some t, some (build, t') => if t' < t then some (a.build, t) else some (build, t')

/-- The newest build of a loader. -/
def newestBuild (argfiles : List Argfile) : Option String :=
  (argfiles.foldl newerArgfile none).map Prod.fst

/-- `argfileTokens`. -/
def argfileTokens (p : Platform) (files : LaunchFiles) : List String :=
  match [Loader.neoforge, .forge].findSome? fun loader =>
      (newestBuild (files.argfiles loader)).map (argfilePath p loader) with
  | none => []
  | some path =>
    (if files.userJvmArgs.isSome then ["@user_jvm_args.txt"] else []) ++ ["@" ++ path]

/-! ## The arguments -/

/-- `hasNoGui`. -/
def hasNoGui (args : List String) : Bool := args.any fun a => a == "nogui" || a == "--nogui"

def isArgfile (t : String) : Bool := (cutPrefix "@" t).isSome

/-- `spliceJVMArgs`: the JVM arguments go in front of the last argfile. -/
def spliceJVMArgs (tokens jvmArgs : List String) : List String :=
  let insert := match tokens.reverse.findIdx? isArgfile with
    | some i => tokens.length - 1 - i
    | none => tokens.length
  let out := tokens.take insert ++ jvmArgs ++ tokens.drop insert
  if hasNoGui out then out else out ++ ["--nogui"]

/-- `scriptLaunchArgs`, with the name of the file the arguments come from. -/
def scriptLaunchArgs (p : Platform) (dir : String) (files : LaunchFiles) (jvmArgs : List String) :
    Except String (List String × String) :=
  match (launchScriptNames p).findSome? fun s =>
      ((files.script s).bind parseLaunchScript).map fun tokens => (s, tokens) with
  | some (s, tokens) => .ok (spliceJVMArgs tokens jvmArgs, s.name)
  | none =>
    let tokens := argfileTokens p files
    if tokens = [] then .error ("no runnable server found in " ++ dir ++
      " — expected a server jar, a run.sh/run.bat, or a NeoForge/Forge argfile under libraries/")
    else .ok (spliceJVMArgs tokens jvmArgs, argfileName p)

/-- `installerLabel`. -/
def installerLabel (loader : String) : String :=
  if loader = "neoforge" then "NeoForge" else if loader = "forge" then "Forge" else "Forge/NeoForge"

/-- `resolveLaunch`, with the name of the file the arguments come from. -/
def resolveLaunchFrom (p : Platform) (d : Disk) (jarPath workingDir : String)
    (jvmArgs : List String) : Except String (List String × String) :=
  let jarPath := trimSpace jarPath
  let dir := trimSpace workingDir
  let dir := if isLaunchScript jarPath ∧ dir = "" then p.dir jarPath else dir
  if isLaunchScript jarPath = false ∧ isJar jarPath ∧ d.jarExists jarPath then
    match d.installer jarPath with
    | some loader => .error (p.base jarPath ++ " is a " ++ installerLabel loader ++
        " installer, not a server — install it first (Konnekt offers this when you select it, " ++
        "or run it yourself with --installServer)")
    | none => .ok (jvmArgs ++ ["-jar", jarPath, "--nogui"], baseName jarPath)
  else if dir = "" then .error ("no server jar and no working directory configured — point " ++
    "Konnekt at the server jar, or at the NeoForge/Forge install directory")
  else match scriptLaunchArgs p dir (d.files dir) jvmArgs with
    | .ok launch => .ok launch
    | .error m =>
      if jarPath ≠ "" ∧ isLaunchScript jarPath = false then
        .error ("server jar " ++ jarPath ++ " not found: " ++ m)
      else .error m

/-- `resolveLaunch`. -/
def resolveLaunch (p : Platform) (d : Disk) (jarPath workingDir : String) (jvmArgs : List String) :
    Except String (List String) :=
  (resolveLaunchFrom p d jarPath workingDir jvmArgs).map Prod.fst

/-! ## What the launch is described as -/

/-- `describeLaunch` of a directory. -/
def describeFiles (p : Platform) (files : LaunchFiles) : String :=
  match (launchScriptNames p).find? fun s => (files.script s).isSome with
  | some s => s.name
  | none => match (argfileTokens p files).getLast? with
    | some t => baseName (trimPrefix t "@")
    | none => ""

/-- `describeLaunch`. -/
def describeLaunch (p : Platform) (d : Disk) (jarPath workingDir : String) : String :=
  let jarPath := trimSpace jarPath
  let dir := trimSpace workingDir
  let dir := if isLaunchScript jarPath ∧ dir = "" then p.dir jarPath else dir
  if isLaunchScript jarPath = false ∧ isJar jarPath ∧ d.jarExists jarPath then baseName jarPath
  else if dir = "" then ""
  else describeFiles p (d.files dir)

/-! ## The build of the loader -/

/-- The build in the path of a loader's argfile, as `reLoaderArgfile` finds it. -/
def loaderBuild (path : String) : Option String :=
  match (splitChars '/' path.toList).reverse with
  | file :: build :: project :: group :: net :: _ =>
    if "args.txt".toList <:+ file ∧ build ≠ [] ∧
        (group = "neoforged".toList ∧ project = "neoforge".toList ∨
          group = "minecraftforge".toList ∧ project = "forge".toList) ∧ "net".toList <:+ net then
      some (String.ofList build)
    else none
  | _ => none

/-- The build a token names. -/
def tokenBuild (t : String) : Option String := loaderBuild (slashes (trimPrefix t "@"))

/-- `loaderVersionFromTokens`. -/
def loaderVersionFromTokens (tokens : List String) : Option String := tokens.findSome? tokenBuild

/-- `detectLoaderVersion` of a directory. -/
def detectFiles (p : Platform) (files : LaunchFiles) : String × String :=
  match (launchScriptNames p).findSome? fun s =>
      ((files.script s).bind parseLaunchScript).bind loaderVersionFromTokens with
  | some v => (v, "script")
  | none => match loaderVersionFromTokens (argfileTokens p files) with
    | some v => (v, "libraries")
    | none => ("", "")

/-- `detectLoaderVersion`: the build, and where it was found. -/
def detectLoaderVersion (p : Platform) (d : Disk) (jarPath workingDir : String) : String × String :=
  let jarPath := trimSpace jarPath
  let dir := trimSpace workingDir
  let dir := if isLaunchScript jarPath ∧ dir = "" then p.dir jarPath else dir
  if isLaunchScript jarPath = false ∧ isJar jarPath ∧ d.jarExists jarPath then ("", "")
  else if dir = "" then ("", "")
  else detectFiles p (d.files dir)

end Konnekt.Server
