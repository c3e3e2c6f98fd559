import Mathlib
import Konnekt.Mods.Install

/-!
# Switching a jar on and off

A jar is switched by a rename between its two names. The rename takes the place of a
file that has the new name already, and the rows of the manifest follow by name, as far
as the manifest can be read and saved.
-/

namespace Konnekt.Mods

open Go Folders

variable {β : Type}

/-! ## The switch -/

/-- What fails while a jar is switched: the rename, reading the manifest, and the save. -/
structure SwitchFaults where
  rename : Option String := none
  load : Option String := none
  save : Option String := none

/-- The names of the rename, `currentPath` and `newPath`. -/
def switchNames (files : Folders β) (folder : TargetFolder) (bareName : Jar) (enabled : Bool) :
    JarName × JarName :=
  if enabled then
    if files (jarPath folder ⟨bareName, true⟩) = none then (⟨bareName, false⟩, ⟨bareName, false⟩)
    else (⟨bareName, true⟩, ⟨bareName, false⟩)
  else (⟨bareName, false⟩, ⟨bareName, true⟩)

/-- The rename, where there is one to make. -/
def renameJar (faults : SwitchFaults) (folder : TargetFolder) (names : JarName × JarName)
    (files : Folders β) : Except RenameError (Folders β) :=
  if names.1 ≠ names.2 then
    renameFile faults.rename (jarPath folder names.1) (jarPath folder names.2) files
  else .ok files

/-- A row after the switch. -/
def switchRow (bareName : Jar) (newName : JarName) (enabled : Bool) (it : ModManifestItem) :
    ModManifestItem :=
  if it.fileName = ⟨bareName, false⟩ ∨ it.fileName = ⟨bareName, true⟩ then
    { it with fileName := newName, enabled := enabled }
  else it

/-- The manifest after the switch. That it cannot be read or saved is no error. -/
def switchRows (faults : SwitchFaults) (bareName : Jar) (newName : JarName) (enabled : Bool)
    (saved : Option ModManifest) : Option ModManifest :=
  match faults.load, faults.save with
  | none, none =>
    let manifest := saved.getD { version := modManifestVersion, items := [] }
    some { manifest with items := manifest.items.map (switchRow bareName newName enabled) }
  | _, _ => saved

/-- `SetEnabled`. -/
def setEnabled (faults : SwitchFaults) (s : Server β) (fileName : String) (enabled : Bool) :
    Except String Unit × Server β :=
  match modFileName fileName with
  | .error e => (.error e, s)
  | .ok n =>
    match findJarFolder s.files n.base with
    | none => (.error ("mod file not found: " ++ fileName), s)
    | some folder =>
      let names := switchNames s.files folder n.base enabled
      match renameJar faults folder names s.files with
      | .error e => (.error ("rename: " ++ renameText e), s)
      | .ok files =>
        (.ok (), { files, saved := switchRows faults n.base names.2 enabled s.saved })

/-! ## A switch that loses nothing -/

/-- The contents of the files a jar has in a folder. -/
def contents (files : Folders β) (folder : TargetFolder) (base : Jar) : List β :=
  (variants base).filterMap fun n => files (jarPath folder n)

/-- The jar is in the folder, under the name of the one state and not under the other. -/
def InState (files : Folders β) (folder : TargetFolder) (base : Jar) (enabled : Bool) : Prop :=
  files (jarPath folder ⟨base, !enabled⟩) ≠ none ∧ files (jarPath folder ⟨base, enabled⟩) = none

/-- Every row of the jar has the name and the mark of the state. -/
def RowsAgree (items : List ModManifestItem) (base : Jar) (enabled : Bool) : Prop :=
  ∀ it ∈ items, it.fileName.base = base → it.fileName.disabled = !enabled ∧ it.enabled = enabled

/-- What a switch is to lead to. -/
structure Switched (faults : SwitchFaults) (s : Server β) (fileName : String) (n : JarName)
    (enabled : Bool) (after : Server β) : Prop where
  /-- Each content is still there, as often as before. -/
  kept : ∀ folder base, (contents after.files folder base).Perm (contents s.files folder base)
  others : ∀ path, (∀ folder d, path ≠ jarPath folder ⟨n.base, d⟩) →
    after.files path = s.files path
  otherRows : removeByBase n.base after.items = removeByBase n.base s.items
  state : ∃ folder, findJarFolder s.files n.base = some folder ∧
    InState after.files folder n.base enabled
  rows : RowsAgree after.items n.base enabled
  twice : setEnabled faults after fileName enabled = (.ok (), after)
  back : ∀ folder, findJarFolder s.files n.base = some folder →
    InState s.files folder n.base (!enabled) →
    ∃ restored, setEnabled faults after fileName (!enabled) = (.ok (), restored) ∧
      restored.files = s.files

/-- A switch that reports no error loses nothing. -/
def LosesNothing (faults : SwitchFaults) (s : Server β) (fileName : String) (enabled : Bool) :
    Prop :=
  ∀ after, setEnabled faults s fileName enabled = (.ok (), after) →
    ∃ n, modFileName fileName = .ok n ∧ Switched faults s fileName n enabled after

/-! ## When a switch comes to its end -/

variable {faults : SwitchFaults} {files : Folders β} {folder : TargetFolder} {base : Jar}
  {enabled : Bool}

/-- The file to rename is there and can be renamed, or there is none and the jar is to be on. -/
def CanSwitch (faults : SwitchFaults) (files : Folders β) (folder : TargetFolder) (base : Jar)
    (enabled : Bool) : Prop :=
  if files (jarPath folder ⟨base, enabled⟩) = none then enabled = true else faults.rename = none

/-- The files after a switch. -/
def switchFiles (files : Folders β) (folder : TargetFolder) (base : Jar) (enabled : Bool) :
    Folders β :=
  if files (jarPath folder ⟨base, enabled⟩) = none then files
  else move (jarPath folder ⟨base, enabled⟩) (jarPath folder ⟨base, !enabled⟩) files

/-- The new name does not depend on what is there. -/
theorem switchNames_snd (files : Folders β) (folder : TargetFolder) (base : Jar) (enabled : Bool) :
    (switchNames files folder base enabled).2 = ⟨base, !enabled⟩ := by
  cases enabled with
  | false => rfl
  | true =>
    by_cases hsrc : files (jarPath folder ⟨base, true⟩) = none
    · simp [switchNames, hsrc]
    · simp [switchNames, hsrc]

theorem renameJar_eq_ok {files' : Folders β} :
    renameJar faults folder (switchNames files folder base enabled) files = .ok files' ↔
      CanSwitch faults files folder base enabled ∧
        files' = switchFiles files folder base enabled := by
  unfold CanSwitch switchFiles renameJar renameFile switchNames
  cases enabled with
  | false =>
    cases hrename : faults.rename with
    | none =>
      by_cases hsrc : files (jarPath folder ⟨base, false⟩) = none
      · simp [hsrc]
      · simp [hsrc, eq_comm]
    | some e => simp
  | true =>
    by_cases hsrc : files (jarPath folder ⟨base, true⟩) = none
    · simp [hsrc, eq_comm]
    · cases hrename : faults.rename with
      | none => simp [hsrc, eq_comm]
      | some e => simp [hsrc]

/-- What a switch without an error has done. -/
theorem setEnabled_eq_ok {s after : Server β} {fileName : String} :
    setEnabled faults s fileName enabled = (.ok (), after) ↔
      ∃ n folder, modFileName fileName = .ok n ∧ findJarFolder s.files n.base = some folder ∧
        CanSwitch faults s.files folder n.base enabled ∧
        after = { files := switchFiles s.files folder n.base enabled,
                  saved := switchRows faults n.base ⟨n.base, !enabled⟩ enabled s.saved } := by
  unfold setEnabled
  cases hname : modFileName fileName with
  | error e => simp
  | ok n =>
    cases hfolder : findJarFolder s.files n.base with
    | none => simp [hfolder]
    | some folder =>
      cases hrenamed : renameJar faults folder (switchNames s.files folder n.base enabled)
          s.files with
      | error e =>
        have hcan : ¬ CanSwitch faults s.files folder n.base enabled := by
          intro hcan
          rw [renameJar_eq_ok.2 ⟨hcan, rfl⟩] at hrenamed
          cases hrenamed
        simp [hfolder, hrenamed, hcan]
      | ok files =>
        obtain ⟨hcan, rfl⟩ := renameJar_eq_ok.1 hrenamed
        simp [hfolder, hrenamed, hcan, switchNames_snd, eq_comm]

/-! ## The files -/

/-- Another jar, and the same jar in the other folder, is left alone. -/
theorem switchFiles_of_ne {path : String}
    (hpath : ∀ d, path ≠ jarPath folder ⟨base, d⟩) :
    switchFiles files folder base enabled path = files path := by
  unfold switchFiles
  split
  · rfl
  · exact move_of_ne (hpath _) (hpath _) files

theorem switchFiles_src (files : Folders β) (folder : TargetFolder) (base : Jar)
    (enabled : Bool) :
    switchFiles files folder base enabled (jarPath folder ⟨base, enabled⟩) = none := by
  unfold switchFiles
  split
  case isTrue hsrc => exact hsrc
  case isFalse => exact move_src (by simp) files

theorem switchFiles_dst (files : Folders β) (folder : TargetFolder) (base : Jar)
    (enabled : Bool) :
    switchFiles files folder base enabled (jarPath folder ⟨base, !enabled⟩) =
      if files (jarPath folder ⟨base, enabled⟩) = none then
        files (jarPath folder ⟨base, !enabled⟩)
      else files (jarPath folder ⟨base, enabled⟩) := by
  unfold switchFiles
  split
  · rfl
  · exact move_dst _ _ files

/-- The jar has at least one file in the folder it is found in. -/
theorem exists_file (hfolder : findJarFolder files base = some folder) (enabled : Bool) :
    files (jarPath folder ⟨base, enabled⟩) ≠ none ∨
      files (jarPath folder ⟨base, !enabled⟩) ≠ none := by
  obtain ⟨⟨⟨b, d⟩, rfl, hfile⟩, -⟩ := findJarFolder_eq_some.1 hfolder
  by_cases hd : d = enabled
  · subst hd
    exact .inl hfile
  · rw [Bool.eq_not_of_ne hd] at hfile
    exact .inr hfile

theorem inState_switchFiles (hfolder : findJarFolder files base = some folder) :
    InState (switchFiles files folder base enabled) folder base enabled := by
  refine ⟨?_, switchFiles_src files folder base enabled⟩
  rw [switchFiles_dst]
  split
  case isTrue hsrc => exact (exists_file hfolder enabled).resolve_left (not_not.2 hsrc)
  case isFalse hsrc => exact hsrc

/-- After a switch the jar is found where it was. -/
theorem findJarFolder_switchFiles (hfolder : findJarFolder files base = some folder) :
    findJarFolder (switchFiles files folder base enabled) base = some folder := by
  rw [findJarFolder_eq_some]
  refine ⟨⟨⟨base, !enabled⟩, rfl, (inState_switchFiles hfolder).1⟩, ?_⟩
  rintro rfl n hn
  rw [switchFiles_of_ne]
  · exact (findJarFolder_eq_some.1 hfolder).2 rfl n hn
  · simp

/-- The switch of a jar that has one file is undone by the switch back. -/
theorem switchFiles_back (hstate : InState files folder base (!enabled)) :
    switchFiles (switchFiles files folder base enabled) folder base (!enabled) = files := by
  obtain ⟨hsrc, hdst⟩ := hstate
  rw [Bool.not_not] at hsrc
  have hmoved : switchFiles files folder base enabled =
      move (jarPath folder ⟨base, enabled⟩) (jarPath folder ⟨base, !enabled⟩) files :=
    if_neg hsrc
  rw [hmoved, switchFiles, Bool.not_not, move_dst, if_neg hsrc, move_move (by simp) hdst]

/-! ## Contents -/

/-- A file would have to take the place of another. -/
def Crowded (files : Folders β) (folder : TargetFolder) (base : Jar) : Prop :=
  files (jarPath folder ⟨base, false⟩) ≠ none ∧ files (jarPath folder ⟨base, true⟩) ≠ none

theorem crowded_iff (enabled : Bool) :
    Crowded files folder base ↔
      files (jarPath folder ⟨base, enabled⟩) ≠ none ∧
        files (jarPath folder ⟨base, !enabled⟩) ≠ none := by
  cases enabled with
  | false => rfl
  | true => exact and_comm

theorem length_contents (files : Folders β) (folder : TargetFolder) (base : Jar)
    (enabled : Bool) :
    (contents files folder base).length =
      (files (jarPath folder ⟨base, enabled⟩)).toList.length +
        (files (jarPath folder ⟨base, !enabled⟩)).toList.length := by
  cases enabled <;> cases hoff : files (jarPath folder ⟨base, true⟩) <;>
    cases hon : files (jarPath folder ⟨base, false⟩) <;> simp [contents, variants, hoff, hon]

/-- A jar that has one file keeps it. -/
theorem contents_switchFiles (hfree : ¬ Crowded files folder base) :
    contents (switchFiles files folder base enabled) folder base = contents files folder base := by
  by_cases hsrc : files (jarPath folder ⟨base, enabled⟩) = none
  · rw [switchFiles, if_pos hsrc]
  · have hdst : files (jarPath folder ⟨base, !enabled⟩) = none := by
      by_contra hdst
      exact hfree ((crowded_iff enabled).2 ⟨hsrc, hdst⟩)
    have hsrc' := switchFiles_src files folder base enabled
    have hdst' := switchFiles_dst files folder base enabled
    rw [if_neg hsrc] at hdst'
    unfold contents variants
    cases enabled <;>
      simp only [Bool.not_false, Bool.not_true] at hdst hsrc' hdst' <;>
      simp only [List.filterMap_cons, List.filterMap_nil, hdst, hsrc', hdst']

/-- Nothing is lost exactly when the new name is free. -/
theorem contents_kept_iff :
    (∀ place b, (contents (switchFiles files folder base enabled) place b).Perm
      (contents files place b)) ↔ ¬ Crowded files folder base := by
  constructor
  · intro hkept hcrowded
    have hlength := (hkept folder base).length_eq
    obtain ⟨hsrc, hdst⟩ := (crowded_iff enabled).1 hcrowded
    obtain ⟨src, hsrc⟩ := Option.ne_none_iff_exists'.1 hsrc
    obtain ⟨dst, hdst⟩ := Option.ne_none_iff_exists'.1 hdst
    rw [length_contents _ _ _ enabled, length_contents _ _ _ enabled, switchFiles_src,
      switchFiles_dst, hsrc, hdst] at hlength
    simp at hlength
  · intro hfree place b
    by_cases hplace : place = folder ∧ b = base
    · obtain ⟨rfl, rfl⟩ := hplace
      rw [contents_switchFiles hfree]
    · have hfile (d : Bool) : switchFiles files folder base enabled (jarPath place ⟨b, d⟩) =
          files (jarPath place ⟨b, d⟩) := by
        apply switchFiles_of_ne
        intro d' heq
        rw [jarPath_inj, JarName.mk.injEq] at heq
        exact hplace ⟨heq.1, heq.2.1⟩
      simp only [contents, variants, List.filterMap_cons, List.filterMap_nil, hfile,
        List.Perm.refl]

/-! ## Rows -/

/-- The rows can be brought in line with the file. -/
def CanRecord (faults : SwitchFaults) : Prop := faults.load = none ∧ faults.save = none

theorem switchRow_eq (bareName : Jar) (newName : JarName) (enabled : Bool)
    (it : ModManifestItem) :
    switchRow bareName newName enabled it =
      if it.fileName.base = bareName then { it with fileName := newName, enabled := enabled }
      else it := by
  have hname : (it.fileName = ⟨bareName, false⟩ ∨ it.fileName = ⟨bareName, true⟩) ↔
      it.fileName.base = bareName := by
    rw [← mem_variants]
    simp [variants]
  simp only [switchRow, hname]

theorem switchRows_of_canRecord (hrecord : CanRecord faults) (newName : JarName)
    (saved : Option ModManifest) :
    switchRows faults base newName enabled saved =
      some { saved.getD { version := modManifestVersion, items := [] } with
        items := (saved.getD { version := modManifestVersion, items := [] }).items.map
          (switchRow base newName enabled) } := by
  simp only [switchRows, hrecord.1, hrecord.2]

theorem switchRows_of_not_canRecord (hrecord : ¬ CanRecord faults) (newName : JarName)
    (saved : Option ModManifest) : switchRows faults base newName enabled saved = saved := by
  unfold switchRows
  split
  case h_1 hload hsave => exact absurd ⟨hload, hsave⟩ hrecord
  case h_2 => rfl

/-- The rows of other jars stay as they are. -/
theorem removeByBase_map_switchRow (newName : JarName) (hnew : newName.base = base)
    (items : List ModManifestItem) :
    removeByBase base (items.map (switchRow base newName enabled)) = removeByBase base items := by
  induction items with
  | nil => rfl
  | cons it items ih =>
    unfold removeByBase at ih ⊢
    rw [List.map_cons, switchRow_eq, List.filter_cons, List.filter_cons, ih]
    by_cases hbase : it.fileName.base = base <;> simp [hbase, hnew]

theorem rowsAgree_map_switchRow (items : List ModManifestItem) :
    RowsAgree (items.map (switchRow base ⟨base, !enabled⟩ enabled)) base enabled := by
  intro it hit hbase
  obtain ⟨old, -, rfl⟩ := List.mem_map.1 hit
  rw [switchRow_eq] at hbase ⊢
  split
  case isTrue => exact ⟨rfl, rfl⟩
  case isFalse hold =>
    rw [if_neg hold] at hbase
    exact absurd hbase hold

/-- A second pass over the rows changes nothing. -/
theorem switchRow_switchRow (it : ModManifestItem) :
    switchRow base ⟨base, !enabled⟩ enabled (switchRow base ⟨base, !enabled⟩ enabled it) =
      switchRow base ⟨base, !enabled⟩ enabled it := by
  rw [switchRow_eq, switchRow_eq]
  by_cases hbase : it.fileName.base = base <;> simp [hbase]

theorem switchRows_switchRows (saved : Option ModManifest) :
    switchRows faults base ⟨base, !enabled⟩ enabled
        (switchRows faults base ⟨base, !enabled⟩ enabled saved) =
      switchRows faults base ⟨base, !enabled⟩ enabled saved := by
  by_cases hrecord : CanRecord faults
  · simp only [switchRows_of_canRecord hrecord, Option.getD_some, List.map_map]
    congr 3
    funext it
    exact switchRow_switchRow it
  · simp only [switchRows_of_not_canRecord hrecord]

/-- The rows follow the file, unless they cannot be reached and are of the other state. -/
theorem rowsAgree_iff {s : Server β} {files' : Folders β} :
    RowsAgree (Server.items ⟨files', switchRows faults base ⟨base, !enabled⟩ enabled s.saved⟩) base
      enabled ↔ CanRecord faults ∨ RowsAgree s.items base enabled := by
  by_cases hrecord : CanRecord faults
  · simp only [hrecord, true_or, iff_true, switchRows_of_canRecord hrecord]
    exact rowsAgree_map_switchRow _
  · rw [switchRows_of_not_canRecord hrecord]
    exact ⟨.inr, Or.rec (absurd · hrecord) id⟩

theorem removeByBase_switchRows {s : Server β} {files' : Folders β} :
    removeByBase base
        (Server.items ⟨files', switchRows faults base ⟨base, !enabled⟩ enabled s.saved⟩) =
      removeByBase base s.items := by
  by_cases hrecord : CanRecord faults
  · rw [switchRows_of_canRecord hrecord]
    apply removeByBase_map_switchRow
    rfl
  · rw [switchRows_of_not_canRecord hrecord]
    rfl

/-! ## One switch after another -/

variable {s after : Server β} {fileName : String} {n : JarName}

/-- A jar that was switched off cannot be switched off again. -/
theorem setEnabled_twice_iff (hname : modFileName fileName = .ok n)
    (hfolder : findJarFolder s.files n.base = some folder)
    (hafter : after = { files := switchFiles s.files folder n.base enabled,
                        saved := switchRows faults n.base ⟨n.base, !enabled⟩ enabled s.saved }) :
    setEnabled faults after fileName enabled = (.ok (), after) ↔ enabled = true := by
  have hfound : findJarFolder after.files n.base = some folder := by
    rw [hafter]
    exact findJarFolder_switchFiles hfolder
  have hsrc : after.files (jarPath folder ⟨n.base, enabled⟩) = none := by
    rw [hafter]
    exact switchFiles_src s.files folder n.base enabled
  rw [setEnabled_eq_ok]
  constructor
  · rintro ⟨n', folder', hname', hfound', hcan, -⟩
    obtain rfl : n = n' := by simpa using hname.symm.trans hname'
    obtain rfl : folder = folder' := by simpa using hfound.symm.trans hfound'
    rwa [CanSwitch, if_pos hsrc] at hcan
  · intro henabled
    refine ⟨n, folder, hname, hfound, ?_, ?_⟩
    · rwa [CanSwitch, if_pos hsrc]
    · rw [switchFiles, if_pos hsrc, hafter, switchRows_switchRows]

/-- A jar that has one file is switched back. -/
theorem setEnabled_back (hname : modFileName fileName = .ok n)
    (hfolder : findJarFolder s.files n.base = some folder)
    (hcan : CanSwitch faults s.files folder n.base enabled)
    (hafter : after.files = switchFiles s.files folder n.base enabled)
    (hstate : InState s.files folder n.base (!enabled)) :
    ∃ restored, setEnabled faults after fileName (!enabled) = (.ok (), restored) ∧
      restored.files = s.files := by
  refine ⟨_, setEnabled_eq_ok.2 ⟨n, folder, hname, ?_, ?_, rfl⟩, ?_⟩
  · rw [hafter]
    exact findJarFolder_switchFiles hfolder
  · have hsrc := hstate.1
    rw [Bool.not_not] at hsrc
    rw [CanSwitch, if_neg hsrc] at hcan
    rw [CanSwitch, hafter, if_neg (inState_switchFiles hfolder).1]
    exact hcan
  · rw [hafter]
    exact switchFiles_back hstate

/-! ## Switches lose nothing -/

/-- The jar is switched on, it has one file in its folder, and the rows can follow. -/
structure Harmless (faults : SwitchFaults) (s : Server β) (folder : TargetFolder) (base : Jar)
    (enabled : Bool) : Prop where
  on : enabled = true
  free : ¬ Crowded s.files folder base
  rows : CanRecord faults ∨ RowsAgree s.items base enabled

/-- A switch loses nothing exactly when it does not come to its end or is harmless. -/
theorem setEnabled_losesNothing_iff (faults : SwitchFaults) (s : Server β) (fileName : String)
    (enabled : Bool) :
    LosesNothing faults s fileName enabled ↔
      ∀ n folder, modFileName fileName = .ok n → findJarFolder s.files n.base = some folder →
        CanSwitch faults s.files folder n.base enabled →
        Harmless faults s folder n.base enabled := by
  constructor
  · intro hloses n folder hname hfolder hcan
    obtain ⟨n', hname', hswitched⟩ :=
      hloses _ (setEnabled_eq_ok.2 ⟨n, folder, hname, hfolder, hcan, rfl⟩)
    obtain rfl : n = n' := by simpa using hname.symm.trans hname'
    exact {
      on := (setEnabled_twice_iff hname hfolder rfl).1 hswitched.twice
      free := contents_kept_iff.1 hswitched.kept
      rows := rowsAgree_iff.1 hswitched.rows }
  · intro hharmless after hafter
    obtain ⟨n, folder, hname, hfolder, hcan, rfl⟩ := setEnabled_eq_ok.1 hafter
    have hharmless := hharmless n folder hname hfolder hcan
    refine ⟨n, hname, ?_⟩
    exact {
      kept := contents_kept_iff.2 hharmless.free
      others := fun path hpath => switchFiles_of_ne (hpath folder)
      otherRows := removeByBase_switchRows
      state := ⟨folder, hfolder, inState_switchFiles hfolder⟩
      rows := rowsAgree_iff.2 hharmless.rows
      twice := (setEnabled_twice_iff hname hfolder rfl).2 hharmless.on
      back := by
        intro folder' hfolder' hstate
        obtain rfl : folder = folder' := by simpa using hfolder.symm.trans hfolder'
        exact setEnabled_back hname hfolder hcan rfl hstate }

/-! ## A jar that is there twice -/

theorem jar_lithium : ".jar".toList <:+ "lithium.jar".toList := by decide

theorem bare_lithium : '/' ∉ "lithium.jar".toList ∧ '\\' ∉ "lithium.jar".toList := by decide

def crowdedJar : Jar where
  name := "lithium.jar"
  jar := jar_lithium
  bare := bare_lithium

/-- A jar, and a copy of another version that was switched off. -/
def crowdedServer : Server String where
  files := fun path =>
    if path = "mods/lithium.jar" then some "new"
    else if path = "mods/lithium.jar.disabled" then some "old"
    else none
  saved := none

/-- The copy takes the place of the jar, whose content is gone. -/
theorem setEnabled_loses_new : ¬ LosesNothing {} crowdedServer "lithium.jar" true := by
  intro hloses
  have hname : modFileName "lithium.jar" = .ok ⟨crowdedJar, false⟩ :=
    modFileName_eq_ok.2 rfl
  have hfolder : findJarFolder crowdedServer.files crowdedJar = some .mods := by decide +kernel
  have hcan : CanSwitch {} crowdedServer.files .mods crowdedJar true := by
    rw [CanSwitch, if_neg (by decide +kernel)]
  obtain ⟨n, -, hswitched⟩ :=
    hloses _ (setEnabled_eq_ok.2 ⟨_, .mods, hname, hfolder, hcan, rfl⟩)
  have hkept := (hswitched.kept .mods crowdedJar).length_eq
  revert hkept
  decide +kernel

end Konnekt.Mods
