import Konnekt.Go.Folders
import Konnekt.Go.Text

/-!
# Installing a mod

The jar files of a server with the manifest that describes them, and what an
install of one version does to both: the download takes the place of the file of
its name, the copies it supersedes are moved aside, and the manifest is written
last.
-/

namespace Konnekt.Mods

open Go Folders

/-! ## Jars and their folders -/

/-- The bare name of a jar file. -/
structure Jar where
  name : String
  jar : ".jar".toList <:+ name.toList
  bare : '/' ∉ name.toList ∧ '\\' ∉ name.toList
  deriving DecidableEq

/-- The name of a jar file that is enabled or disabled. -/
structure JarName where
  base : Jar
  disabled : Bool
  deriving DecidableEq

/-- The name on disk. -/
def JarName.text (n : JarName) : String :=
  if n.disabled then n.base.name ++ ".disabled" else n.base.name

/-- `modFileName`: the jar a file name stands for. -/
def modFileName (fileName : String) : Except String JarName :=
  let bare := trimSuffix fileName ".disabled"
  if h : fileName = "" ∨ '/' ∈ fileName.toList ∨ '\\' ∈ fileName.toList then
    .error ("invalid mod file name " ++ quote fileName)
  else if hjar : ".jar".toList <:+ bare.toList then
    .ok ⟨⟨bare, hjar, fun hs => h (.inr (.inl (mem_of_mem_trimSuffix hs))),
      fun hs => h (.inr (.inr (mem_of_mem_trimSuffix hs)))⟩, fileName ≠ bare⟩
  else .error ("invalid mod file name " ++ quote fileName ++ ": not a jar")

/-- The two folders a server reads jars from. -/
inductive TargetFolder where
  | mods
  | plugins
  deriving DecidableEq, Repr

def TargetFolder.text : TargetFolder → String
  | .mods => "mods"
  | .plugins => "plugins"

/-- `loaderTargetFolder`. -/
def loaderTargetFolder (loader : String) : TargetFolder :=
  if loader ∈ ["paper", "spigot", "bukkit", "purpur", "velocity"] then .plugins else .mods

/-- The path of a jar in the working directory. -/
def jarPath (folder : TargetFolder) (n : JarName) : String := folder.text ++ "/" ++ n.text

def supersededSuffix : String := ".superseded"

/-- Where a jar is moved aside. -/
def asidePath (folder : TargetFolder) (n : JarName) : String :=
  jarPath folder n ++ supersededSuffix

/-- A base ends in neither of the suffixes Konnekt adds. -/
theorem Jar.not_suffix (b : Jar) (suf : String) (hlength : ".jar".length ≤ suf.length)
    (hsuf : ¬ ".jar".toList <:+ suf.toList) : ¬ suf.toList <:+ b.name.toList := by
  intro h
  apply hsuf
  apply List.suffix_of_suffix_length_le b.jar h
  rwa [String.length_toList, String.length_toList]

@[ext] theorem Jar.ext_name {b b' : Jar} (h : b.name = b'.name) : b = b' := by
  cases b
  cases b'
  cases h
  rfl

/-- The names on disk tell jars apart. -/
theorem JarName.text_injective : Function.Injective JarName.text := by
  have hne (b b' : Jar) : b.name ≠ b'.name ++ ".disabled" := by
    intro h
    apply b.not_suffix ".disabled" (by decide) (by decide)
    rw [h, String.toList_append]
    exact List.suffix_append _ _
  rintro ⟨b, d⟩ ⟨b', d'⟩ h
  cases d <;> cases d'
  · exact congrArg (JarName.mk · false) (Jar.ext_name h)
  · exact absurd h (hne b b')
  · exact absurd h.symm (hne b' b)
  · exact congrArg (JarName.mk · true) (Jar.ext_name ((String.append_left_inj _).1 h))

theorem TargetFolder.text_append_inj {f f' : TargetFolder} {s s' : String}
    (h : f.text ++ "/" ++ s = f'.text ++ "/" ++ s') : f = f' ∧ s = s' := by
  have hlist := congrArg String.toList h
  cases f <;> cases f' <;> simp [TargetFolder.text] at hlist <;> simp [String.toList_inj.1 hlist]

@[simp] theorem jarPath_inj {f f' : TargetFolder} {n n' : JarName} :
    jarPath f n = jarPath f' n' ↔ f = f' ∧ n = n' := by
  constructor
  · intro h
    obtain ⟨hf, hn⟩ := TargetFolder.text_append_inj h
    exact ⟨hf, JarName.text_injective hn⟩
  · rintro ⟨rfl, rfl⟩
    rfl

@[simp] theorem asidePath_inj {f f' : TargetFolder} {n n' : JarName} :
    asidePath f n = asidePath f' n' ↔ f = f' ∧ n = n' := by
  rw [asidePath, asidePath, String.append_left_inj, jarPath_inj]

/-- Nothing that reads jars reads a name that was moved aside. -/
@[simp] theorem jarPath_ne_asidePath (f f' : TargetFolder) (n n' : JarName) :
    jarPath f n ≠ asidePath f' n' := by
  intro h
  have hsuf : supersededSuffix.toList <:+ (jarPath f n).toList := by
    rw [h, asidePath, String.toList_append]
    exact List.suffix_append _ _
  have hend : ".jar".toList <:+ (jarPath f n).toList ∨ ".disabled".toList <:+ (jarPath f n).toList := by
    obtain ⟨b, d⟩ := n
    rw [jarPath, String.toList_append]
    cases d with
    | false => exact .inl (b.jar.trans (List.suffix_append _ _))
    | true =>
      apply Or.inr
      have htext : JarName.text ⟨b, true⟩ = b.name ++ ".disabled" := rfl
      rw [htext, String.toList_append (t := ".disabled"), ← List.append_assoc]
      exact List.suffix_append _ _
  cases hend with
  | inl hjar =>
    exact absurd (List.suffix_of_suffix_length_le hjar hsuf (by decide)) (by decide)
  | inr hdisabled =>
    exact absurd (List.suffix_of_suffix_length_le hdisabled hsuf (by decide)) (by decide)

theorem trimSuffix_asidePath (f : TargetFolder) (n : JarName) :
    trimSuffix (asidePath f n) supersededSuffix = jarPath f n :=
  trimSuffix_append _ _

theorem JarName.trimSuffix_text (n : JarName) : trimSuffix n.text ".disabled" = n.base.name := by
  obtain ⟨b, d⟩ := n
  cases d with
  | false => exact trimSuffix_of_not (b.not_suffix ".disabled" (by decide) (by decide))
  | true => exact trimSuffix_append b.name ".disabled"

theorem JarName.text_bare (n : JarName) :
    ¬ (n.text = "" ∨ '/' ∈ n.text.toList ∨ '\\' ∈ n.text.toList) := by
  obtain ⟨b, d⟩ := n
  have hne : b.name ≠ "" := by
    intro h
    have hjar := b.jar
    rw [h] at hjar
    exact absurd hjar (by decide)
  cases d <;> simp [JarName.text, b.bare, hne]

/-- The names that are taken are those of the jars, each for the jar it is the name of. -/
theorem modFileName_eq_ok {fileName : String} {n : JarName} :
    modFileName fileName = .ok n ↔ n.text = fileName := by
  constructor
  · intro h
    simp only [modFileName] at h
    split at h
    · cases h
    · split at h
      · cases h
        by_cases hbare : trimSuffix fileName ".disabled" = fileName
        · simp [JarName.text, hbare]
        · simp [JarName.text, Ne.symm hbare, trimSuffix_append_of_ne hbare]
      · cases h
  · rintro rfl
    have hbare := n.trimSuffix_text
    have hplain : ¬ (n.text = "" ∨ '/' ∈ n.text.toList ∨ '\\' ∈ n.text.toList) := n.text_bare
    have hdisabled : decide (n.text ≠ n.base.name) = n.disabled := by
      obtain ⟨b, d⟩ := n
      cases d <;> simp [JarName.text]
    simp only [modFileName, dif_neg hplain, hbare, hdisabled, dif_pos n.base.jar]

/-! ## The manifest -/

/-- `modManifestItem`. -/
structure ModManifestItem where
  fileName : JarName
  displayName : String
  iconURL : String
  modID : String
  source : String
  provider : String
  projectID : String
  versionID : String
  versionNumber : String
  sha512 : String
  hashChecked : Bool
  loader : String
  targetFolder : String
  enabled : Bool
  installedAt : Int
  dependencyOf : List String
  clientOnly : Bool
  deriving DecidableEq

def modManifestVersion : Nat := 2

/-- `modManifest`. -/
structure ModManifest where
  version : Nat
  items : List ModManifestItem
  deriving DecidableEq

/-- `upsert`: the first row of the file name is replaced, and without one the row is added. -/
def upsert (item : ModManifestItem) : List ModManifestItem → List ModManifestItem
  | [] => [item]
  | it :: items => if it.fileName = item.fileName then item :: items else it :: upsert item items

/-- `removeByBase`. -/
def removeByBase (base : Jar) (items : List ModManifestItem) : List ModManifestItem :=
  items.filter fun it => it.fileName.base ≠ base

/-- What is on disk for a server: the files under its working directory, and the manifest, if
there is one that can be read. -/
structure Server (β : Type) where
  files : Folders β
  saved : Option ModManifest

/-- The rows of the manifest on disk. -/
def Server.items {β : Type} (s : Server β) : List ModManifestItem :=
  (s.saved.getD { version := modManifestVersion, items := [] }).items

/-! ## The version to install -/

/-- `models.ModVersion`, with the fields an install reads. -/
structure ModVersion where
  id : String
  projectID : String
  name : String
  versionNumber : String
  fileName : Jar
  sha512 : String
  clientOnly : Bool

/-- A project's title and icon. -/
structure ProjectMeta where
  title : String
  iconURL : String

/-- What an install learns from outside: the loader of the server, the version, the verified
download, the mod id its metadata declares, the project when the provider knows it, and the time. -/
structure Fetched (β : Type) where
  loader : String
  version : ModVersion
  data : β
  modID : String
  project : Option ProjectMeta
  now : Int

/-- The folder the version goes to. -/
def Fetched.folder {β : Type} (f : Fetched β) : TargetFolder := loaderTargetFolder f.loader

/-- The name the download has in the folder. -/
def Fetched.download {β : Type} (f : Fetched β) : JarName := ⟨f.version.fileName, false⟩

/-- The row of the installed file. -/
def installedItem {β : Type} (f : Fetched β) (wasDisabled : Bool) : ModManifestItem where
  fileName := ⟨f.version.fileName, wasDisabled⟩
  displayName :=
    match f.project with
    | some p => if f.version.projectID ≠ "" then p.title else f.version.name
    | none => f.version.name
  iconURL :=
    match f.project with
    | some p => if f.version.projectID ≠ "" then p.iconURL else ""
    | none => ""
  modID := f.modID
  source := "modrinth"
  provider := "modrinth"
  projectID := f.version.projectID
  versionID := f.version.id
  versionNumber := f.version.versionNumber
  sha512 := f.version.sha512
  hashChecked := true
  loader := f.loader
  targetFolder := f.folder.text
  enabled := ! wasDisabled
  installedAt := f.now
  dependencyOf := []
  clientOnly := f.version.clientOnly

/-- What fails during an install: moving a file of the target folder aside, the rename that keeps
the new file disabled, and the save. -/
structure Faults where
  aside : JarName → Option String := fun _ => none
  keepDisabled : Option String := none
  save : Option String := none

section

variable {β : Type}

/-! ## Superseded files -/

/-- The two variants of a jar, in the order the source asks for them. -/
def variants (base : Jar) : List JarName := [⟨base, false⟩, ⟨base, true⟩]

/-- `findJarFolder`: the folder a jar lives in. -/
def findJarFolder (files : Folders β) (base : Jar) : Option TargetFolder :=
  [TargetFolder.mods, .plugins].find? fun folder =>
    (variants base).any fun n => (files (jarPath folder n)).isSome

theorem mem_variants {base : Jar} {n : JarName} : n ∈ variants base ↔ n.base = base := by
  obtain ⟨b, d⟩ := n
  cases d <;> simp [variants]

/-- A jar is found in a folder that holds it, unless it is also in the folder asked before. -/
theorem findJarFolder_eq_some {files : Folders β} {folder : TargetFolder} {base : Jar} :
    findJarFolder files base = some folder ↔
      (∃ n, n.base = base ∧ files (jarPath folder n) ≠ none) ∧
        (folder = .plugins → ∀ n, n.base = base → files (jarPath .mods n) = none) := by
  have hholds (place : TargetFolder) :
      ((variants base).any fun n => (files (jarPath place n)).isSome) = true ↔
        ∃ n, n.base = base ∧ files (jarPath place n) ≠ none := by
    simp only [List.any_eq_true, mem_variants, Option.isSome_iff_ne_none]
  rw [findJarFolder, List.find?_cons]
  by_cases hmods : ∃ n, n.base = base ∧ files (jarPath .mods n) ≠ none
  · obtain ⟨n, hn, hfile⟩ := hmods
    rw [(hholds .mods).2 ⟨n, hn, hfile⟩]
    cases folder with
    | mods => simpa using ⟨n, hn, hfile⟩
    | plugins => simpa using fun _ _ _ => ⟨n, hn, hfile⟩
  · rw [Bool.eq_false_iff.2 (mt (hholds .mods).1 hmods), List.find?_cons]
    have hnone : ∀ n, n.base = base → files (jarPath .mods n) = none := by
      intro n hn
      by_contra hfile
      exact hmods ⟨n, hn, hfile⟩
    by_cases hplugins : ∃ n, n.base = base ∧ files (jarPath .plugins n) ≠ none
    · rw [(hholds .plugins).2 hplugins]
      cases folder with
      | mods => simpa using hnone
      | plugins => simpa using ⟨hplugins, hnone⟩
    · rw [Bool.eq_false_iff.2 (mt (hholds .plugins).1 hplugins)]
      cases folder with
      | mods => simpa using hnone
      | plugins => simpa using fun n hn hfile => absurd ⟨n, hn, hfile⟩ hplugins

/-- Where a jar is found depends on the files of its two names. -/
theorem findJarFolder_congr {before files : Folders β} {base : Jar}
    (h : ∀ place n, n.base = base → files (jarPath place n) = before (jarPath place n)) :
    findJarFolder files base = findJarFolder before base := by
  simp only [findJarFolder, variants, List.any_cons, List.any_nil, h _ ⟨base, _⟩ rfl]

/-- A removal under way: the files and rows so far, what was moved aside, and which kinds of file
were seen. -/
structure Removal (β : Type) where
  files : Folders β
  items : List ModManifestItem
  aside : List String := []
  sawEnabled : Bool := false
  sawDisabled : Bool := false

/-- What a step of the removal leads to; a failure leaves what was done until then. -/
abbrev Removing (β : Type) := Except (String × Removal β)

/-- The text of a rename error. -/
def renameText : RenameError → String
  | .notExist => "file does not exist"
  | .exist => "file already exists"
  | .other message => message

variable (faults : Faults) (equalFold : String → String → Bool) (f : Fetched β)

/-- `moveAside`. -/
def moveAside (n : JarName) (r : Removal β) : Removing β (Removal β) :=
  match renameFile (faults.aside n) (jarPath f.folder n) (asidePath f.folder n) r.files with
  | .ok files => .ok { r with files, aside := r.aside ++ [asidePath f.folder n] }
  | .error e => .error ("move superseded " ++ n.text ++ " aside: " ++ renameText e, r)

/-- One name of the loop of `remove`. The check that a path is in the folder is left out: the
path of a bare name is. -/
def removeName (r : Removal β) (n : JarName) : Removing β (Removal β) :=
  if r.files (jarPath f.folder n) = none then .ok r
  else if n.disabled then moveAside faults f n { r with sawDisabled := true }
  else moveAside faults f n { r with sawEnabled := true }

/-- `remove`. -/
def remove (base : Jar) (r : Removal β) : Removing β (Removal β) := do
  let r ← (variants base).foldlM (removeName faults f) r
  return { r with items := removeByBase base r.items }

/-- The file of the same name that is switched off. -/
def removeTwin (r : Removal β) : Removing β (Removal β) :=
  let disabledTwin : JarName := ⟨f.version.fileName, true⟩
  if r.files (jarPath f.folder disabledTwin) = none then .ok r
  else do
    let r ← moveAside faults f disabledTwin r
    return { r with items := removeByBase f.version.fileName r.items, sawDisabled := true }

/-- The row is of the same project, and its primary file. -/
def samePrimary (it : ModManifestItem) : Prop :=
  f.version.projectID ≠ "" ∧ it.projectID = f.version.projectID ∧ it.versionID ≠ ""

instance (it : ModManifestItem) : Decidable (samePrimary f it) :=
  inferInstanceAs (Decidable (_ ∧ _))

/-- The row is of the same mod, as the jars declare it. -/
def sameMod (it : ModManifestItem) : Prop :=
  f.modID ≠ "" ∧ equalFold it.modID f.modID = true

instance (it : ModManifestItem) : Decidable (sameMod equalFold f it) :=
  inferInstanceAs (Decidable (_ ∧ _))

/-- One row of the loop of `removeSuperseded`. -/
def removeRow (r : Removal β) (it : ModManifestItem) : Removing β (Removal β) :=
  let base := it.fileName.base
  if base = f.version.fileName then .ok r
  else if it.targetFolder ≠ "" ∧ it.targetFolder ≠ f.folder.text then .ok r
  else if ¬ samePrimary f it ∧ ¬ sameMod equalFold f it then .ok r
  else match findJarFolder r.files base with
    | none => .ok { r with items := removeByBase base r.items }
    | some folder => if folder = f.folder then remove faults f base r else .ok r

/-- `removeSuperseded`. -/
def removeSuperseded (r : Removal β) : Removing β (Removal β) := do
  let r ← removeTwin faults f r
  r.items.foldlM (removeRow faults equalFold f) r

/-- What `removeSuperseded` reports: only disabled files were replaced. -/
def Removal.wasDisabled (r : Removal β) : Bool := r.sawDisabled && ! r.sawEnabled

/-- `restoreSuperseded`. -/
def restoreSuperseded (aside : List String) (files : Folders β) : Folders β :=
  aside.foldl (fun files path => tryRenameFile path (trimSuffix path supersededSuffix) files) files

/-- `discardSuperseded`. -/
def discardSuperseded (aside : List String) (files : Folders β) : Folders β :=
  aside.foldl (fun files path => removeAll path files) files

/-! ## The install -/

/-- The rename that keeps the new file switched off. -/
def keepDisabled (wasDisabled : Bool) (files : Folders β) : Except RenameError (Folders β) :=
  if wasDisabled then
    renameFile faults.keepDisabled (jarPath f.folder f.download)
      (jarPath f.folder ⟨f.version.fileName, true⟩) files
  else .ok files

/-- `undo`: the new file is taken out and the superseded ones are put back. -/
def undo (newPath : String) (aside : List String) (files : Folders β) : Folders β :=
  restoreSuperseded aside (removeAll newPath files)

/-- The part of `Install` after a removal: the new file is kept disabled where it has to be, and
the manifest is saved. -/
def finish (s : Server β) (manifest : ModManifest) (r : Removal β) :
    Except String Unit × Server β :=
  match keepDisabled faults f r.wasDisabled r.files with
  | .error e =>
    (.error ("keep " ++ f.version.fileName.name ++ " disabled: " ++ renameText e),
      { s with files := undo (jarPath f.folder f.download) r.aside r.files })
  | .ok files =>
    let item := installedItem f r.wasDisabled
    match faults.save with
    | some e => (.error e, { s with files := undo (jarPath f.folder item.fileName) r.aside files })
    | none =>
      (.ok (), { files := discardSuperseded r.aside files,
                 saved := some { manifest with items := upsert item r.items } })

/-- `Install` of one version, from the download on. -/
def install (s : Server β) : Except String Unit × Server β :=
  let manifest := s.saved.getD { version := modManifestVersion, items := [] }
  let files := Function.update s.files (jarPath f.folder f.download) (some f.data)
  match removeSuperseded faults equalFold f { files, items := manifest.items } with
  | .error (e, r) => (.error e, { s with files := restoreSuperseded r.aside r.files })
  | .ok r => finish faults f s manifest r

end

end Konnekt.Mods
