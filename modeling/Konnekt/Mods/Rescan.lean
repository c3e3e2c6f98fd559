import Konnekt.Mods.Install

/-!
# Rescanning the mod folders

A rescan lists the jars of a server, and where the listing differs from the one of the
rescan before, asks the provider about every jar that the manifest cannot account for.
-/

namespace Konnekt.Mods

open Go

/-! ## Jars on disk -/

/-- An entry of a folder. -/
structure DirEntry (β : Type) where
  name : String
  isDir : Bool := false
  size : Nat
  /-- In nanoseconds. -/
  modTime : Int
  data : β

/-- Which jar it is, and what is in it. -/
structure JarContent (β : Type) where
  folder : TargetFolder
  name : JarName
  data : β
  deriving DecidableEq

/-- `jarFile`. -/
structure JarFile (β : Type) extends JarContent β where
  size : Nat
  modTime : Int
  deriving DecidableEq

variable {β : Type}

/-- The jars among the entries of one folder. -/
def jarsIn (folder : TargetFolder) (entries : List (DirEntry β)) : List (JarFile β) :=
  entries.filterMap fun e =>
    if e.isDir then none
    else
      (modFileName e.name).toOption.map fun name =>
        { folder := folder, name := name, data := e.data, size := e.size, modTime := e.modTime }

/-- `UnixMilli`. -/
def unixMilli (time : Int) : Int := time / 1000000

/-- What a folder signature is made of. -/
def signatureText (jar : JarFile β) : String :=
  jar.folder.text ++ "/" ++ jar.name.text ++ ":" ++ toString jar.size ++ ":" ++
    toString (unixMilli jar.modTime) ++ ";"

/-- `fnv.New64a`. -/
def fnv64a (data : List UInt8) : UInt64 :=
  data.foldl (fun h b => (h ^^^ b.toUInt64) * 0x100000001b3) 0xcbf29ce484222325

/-- `folderSignature`. -/
def folderSignature (jars : List (JarFile β)) : UInt64 :=
  fnv64a (jars.flatMap fun jar => (signatureText jar).toUTF8.toList)

/-- The key of `jarHashCache`: path, time and size. -/
abbrev JarCacheKey : Type := String × Int × Nat

def jarCacheKey (jar : JarFile β) : JarCacheKey :=
  (jarPath jar.folder jar.name, unixMilli jar.modTime, jar.size)

/-! ## The provider -/

/-- `models.ModVersion`, with the fields an identification reads. -/
structure HashVersion where
  id : String
  projectID : String
  versionNumber : String
  fileName : String
  sha512 : String
  clientOnly : Bool

/-- A provider, by its answer about one hash or project. -/
structure Provider where
  id : String
  versionByHash : String → Option HashVersion
  project : String → Option ProjectMeta

/-- `models.JarMeta`. -/
structure JarMeta where
  name : String := ""
  id : String := ""
  loader : String := ""

/-- What a rescan relies on. -/
structure Setting (β : Type) where
  provider : Provider
  sha512 : β → String
  equalFold : String → String → Bool
  /-- `parseJarMetaCached`, by the loader; without metadata all is empty. -/
  parseJarMeta : String → JarFile β → JarMeta

/-- What was asked of the provider. -/
inductive Request where
  | hashes (hashes : List String)
  | project (id : String)
  deriving DecidableEq, Repr

/-! ## The service -/

/-- The folders of one server, with what is known of them. -/
structure ModService (β : Type) where
  mods : List (DirEntry β)
  plugins : List (DirEntry β)
  /-- The manifest, if there is one that can be read. -/
  saved : Option ModManifest
  lastSig : Option UInt64 := none
  jarHashCache : JarCacheKey → Option String := fun _ => none
  /-- Every request so far, the last one first. -/
  requests : List Request := []
  /-- How many `mod:changed` events have been emitted. -/
  emitted : Nat := 0

/-- What the parts that one rescan calls answer. -/
structure Around where
  config : Option String := none
  loader : Except String String
  /-- The jars that cannot be read. -/
  unreadable : List (TargetFolder × JarName) := []
  query : Option String := none
  save : Option String := none

/-- `scanJarFiles`. -/
def ModService.scanJarFiles (s : ModService β) : List (JarFile β) :=
  jarsIn .mods s.mods ++ jarsIn .plugins s.plugins

/-! ## Which jars are looked up -/

/-- The row `index` has for a file name: the last one. -/
def rowOf (items : List ModManifestItem) (name : JarName) : Option ModManifestItem :=
  items.reverse.find? (·.fileName = name)

/-- A row that an older version may have left without its version. -/
def recheck (manifest : ModManifest) (name : JarName) : Bool :=
  manifest.version < modManifestVersion &&
    manifest.items.any fun it => it.fileName = name && it.source = "modrinth" && it.versionID = ""

/-- The manifest can account for the file. -/
def accountsFor (manifest : ModManifest) (name : JarName) : Bool :=
  match rowOf manifest.items name with
  | some it => ! recheck manifest name && (it.source = "modrinth" || it.hashChecked)
  | none => false

section

variable (setting : Setting β) (around : Around)

/-- `fileSHA512Cached` of a jar that can be read. -/
def fileSHA512Cached (jar : JarFile β) (cache : JarCacheKey → Option String) :
    String × (JarCacheKey → Option String) :=
  match cache (jarCacheKey jar) with
  | some sum => (sum, cache)
  | none =>
    let sum := setting.sha512 jar.data
    (sum, Function.update cache (jarCacheKey jar) (some sum))

/-- The jars that are looked up, with their hashes. -/
def candidates (manifest : ModManifest) :
    List (JarFile β) → (JarCacheKey → Option String) →
      List (JarFile β × String) × (JarCacheKey → Option String)
  | [], cache => ([], cache)
  | jar :: jars, cache =>
    if accountsFor manifest jar.name then candidates manifest jars cache
    -- A jar that cannot be read is passed over.
    else if (jar.folder, jar.name) ∈ around.unreadable then candidates manifest jars cache
    else
      let (hash, cache) := fileSHA512Cached setting jar cache
      let (rest, cache) := candidates manifest jars cache
      ((jar, hash) :: rest, cache)

/-! ## What is written about a jar -/

/-- Only a version's primary file is the version; it is told by its bytes where the provider gives
their hash. -/
def isPrimary (version : HashVersion) (jar : JarContent β) (hash : String) : Bool :=
  if version.sha512 ≠ "" then setting.equalFold version.sha512 hash
  else setting.equalFold version.fileName jar.name.base.name

/-- The project of a version; one that cannot be reached has neither title nor icon. -/
def projectOf (version : HashVersion) : ProjectMeta :=
  if version.projectID ≠ "" then
    (setting.provider.project version.projectID).getD { title := "", iconURL := "" }
  else { title := "", iconURL := "" }

/-- The row of a jar the provider does not know. -/
def localItem (loader : String) (existing : Option ModManifestItem) (jar : JarFile β)
    (hash : String) : ModManifestItem :=
  let declared := setting.parseJarMeta loader jar
  { fileName := jar.name
    displayName := declared.name
    iconURL := ""
    modID := declared.id
    source := "local"
    provider := ""
    projectID := ""
    versionID := ""
    versionNumber := ""
    sha512 := hash
    hashChecked := true
    loader := if declared.loader = "" then loader else declared.loader
    targetFolder := jar.folder.text
    enabled := ! jar.name.disabled
    installedAt :=
      match existing with
      | some it => if it.installedAt ≠ 0 then it.installedAt else unixMilli jar.modTime
      | none => unixMilli jar.modTime
    dependencyOf := (existing.map (·.dependencyOf)).getD []
    clientOnly := false }

/-- The row of a jar, as the provider answers. -/
def identifiedItem (loader : String) (existing : Option ModManifestItem) (jar : JarFile β)
    (hash : String) : ModManifestItem :=
  let item := localItem setting loader existing jar hash
  match setting.provider.versionByHash hash with
  | none => item
  | some version =>
    let primary := isPrimary setting version jar.toJarContent hash
    let project := projectOf setting version
    { item with
      source := "modrinth"
      provider := setting.provider.id
      projectID := version.projectID
      versionNumber := version.versionNumber
      clientOnly := version.clientOnly
      versionID := if primary then version.id else ""
      iconURL := project.iconURL
      displayName :=
        if project.title ≠ "" && (primary || item.displayName = "") then project.title
        else item.displayName }

/-- The projects asked about, each once. -/
def projectRequests (found : List (JarFile β × String)) : List Request :=
  (found.filterMap fun c => do
    let version ← setting.provider.versionByHash c.2
    if version.projectID ≠ "" then some version.projectID else none).eraseDups.map .project

/-- `identifyUnknownLocked`. -/
def identifyUnknown (s : ModService β) : Except String Bool × ModService β :=
  match around.loader with
  | .error e => (.error e, s)
  | .ok loader =>
    let manifest := s.saved.getD { version := modManifestVersion, items := [] }
    let (found, cache) :=
      candidates setting around manifest s.scanJarFiles s.jarHashCache
    let s := { s with jarHashCache := cache }
    if found.isEmpty then
      if manifest.version < modManifestVersion then
        match around.save with
        | some e => (.error e, s)
        | none =>
          (.ok false, { s with saved := some { manifest with version := modManifestVersion } })
      else (.ok false, s)
    else
      let s := { s with requests := .hashes (found.map (·.2)).eraseDups :: s.requests }
      match around.query with
      | some e => (.error ("identify " ++ toString found.length ++ " file(s): " ++ e), s)
      | none =>
        let s := { s with requests := (projectRequests setting found).reverse ++ s.requests }
        let items := found.foldl (fun items c =>
          upsert (identifiedItem setting loader (rowOf manifest.items c.1.name) c.1 c.2) items)
          manifest.items
        match around.save with
        | some e => (.error e, s)
        | none =>
          (.ok true, { s with
            saved := some { version := max manifest.version modManifestVersion, items := items } })

/-- `rescanServer`, of a server with a working directory. -/
def rescanServer (s : ModService β) : Bool × Option String × ModService β :=
  match around.config with
  | some e => (false, some e, s)
  | none =>
    let sig := folderSignature s.scanJarFiles
    if s.lastSig = some sig then (false, none, s)
    else
      let folderChanged := s.lastSig.isSome
      match identifyUnknown setting around { s with lastSig := some sig } with
      | (.ok identified, s) => (folderChanged || identified, none, s)
      -- The folder counts as not looked at yet.
      | (.error e, s) => (folderChanged, some e, { s with lastSig := none })

/-- `Rescan`. -/
def rescan (s : ModService β) : Option String × ModService β :=
  let (changed, err, s) := rescanServer setting around s
  (err, { s with emitted := if changed then s.emitted + 1 else s.emitted })

end

end Konnekt.Mods
