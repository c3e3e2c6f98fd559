import Konnekt.Mods.Install
import Mathlib.Data.List.Nodup
import Mathlib.Data.Set.Insert

/-!
# Installs are all or nothing

A removal moves files of the target folder aside and touches no other jar, and
putting the moved files back undoes it. What an install leaves behind after a
failure is then decided by what the download replaced.
-/

namespace Konnekt.Mods

open Go Folders

section

variable {β : Type}

/-! ## Files moved aside -/

/-- The files of the folder that have been moved aside, and nothing else that is a jar. -/
structure Moved (folder : TargetFolder) (before : Folders β) (moved : List JarName)
    (files : Folders β) : Prop where
  nodup : moved.Nodup
  had : ∀ n ∈ moved, before (jarPath folder n) ≠ none
  gone : ∀ n ∈ moved, files (jarPath folder n) = none
  kept : ∀ n ∈ moved, files (asidePath folder n) = before (jarPath folder n)
  others : ∀ place n, (place = folder → n ∉ moved) → files (jarPath place n) = before (jarPath place n)

variable {folder : TargetFolder} {before files : Folders β} {moved : List JarName}

theorem Moved.nil (folder : TargetFolder) (before : Folders β) : Moved folder before [] before where
  nodup := List.nodup_nil
  had := by simp
  gone := by simp
  kept := by simp
  others _ _ _ := rfl

/-- One more file moved aside. -/
theorem Moved.snoc (h : Moved folder before moved files) {n : JarName}
    (hn : files (jarPath folder n) ≠ none) :
    Moved folder before (moved ++ [n]) (move (jarPath folder n) (asidePath folder n) files) := by
  have hnot : n ∉ moved := fun hmem => hn (h.gone n hmem)
  have hbefore : files (jarPath folder n) = before (jarPath folder n) :=
    h.others folder n fun _ => hnot
  have hmem {m : JarName} (hm : m ∈ moved ++ [n]) : m ≠ n ∧ m ∈ moved ∨ m = n := by
    cases List.mem_append.1 hm with
    | inl hm => exact .inl ⟨fun heq => hnot (heq ▸ hm), hm⟩
    | inr hm => exact .inr (List.mem_singleton.1 hm)
  constructor
  · exact List.nodup_append.2 ⟨h.nodup, List.nodup_singleton n, fun m hm m' hm' heq =>
      hnot (List.mem_singleton.1 hm' ▸ heq ▸ hm)⟩
  · intro m hm
    obtain ⟨-, hm⟩ | rfl := hmem hm
    · exact h.had m hm
    · rwa [← hbefore]
  · intro m hm
    obtain ⟨hne, hm⟩ | rfl := hmem hm
    · rw [move_of_ne (by simpa using hne) (jarPath_ne_asidePath _ _ _ _), h.gone m hm]
    · exact move_src (jarPath_ne_asidePath _ _ _ _) files
  · intro m hm
    obtain ⟨hne, hm⟩ | rfl := hmem hm
    · rw [move_of_ne (jarPath_ne_asidePath _ _ _ _).symm (by simpa using hne), h.kept m hm]
    · rw [move_dst, hbefore]
  · intro place m hm
    have hpath : jarPath place m ≠ jarPath folder n := by
      rw [Ne, jarPath_inj]
      rintro ⟨rfl, rfl⟩
      exact hm rfl (by simp)
    rw [move_of_ne hpath (jarPath_ne_asidePath _ _ _ _)]
    exact h.others place m fun hplace hmem => hm hplace (by simp [hmem])

/-- Putting back the first of the moved files. -/
theorem Moved.putBack {n : JarName} (h : Moved folder before (n :: moved) files) :
    Moved folder before moved
      (tryRenameFile (asidePath folder n) (jarPath folder n) files) := by
  obtain ⟨hnot, hnodup⟩ := List.nodup_cons.1 h.nodup
  have hn := List.mem_cons_self (a := n) (l := moved)
  have haside : files (asidePath folder n) ≠ none := by
    rw [h.kept n hn]
    exact h.had n hn
  have hne {m : JarName} (hm : m ∈ moved) : m ≠ n := fun heq => hnot (heq ▸ hm)
  rw [tryRenameFile_of_exists haside]
  constructor
  · exact hnodup
  · exact fun m hm => h.had m (List.mem_cons_of_mem _ hm)
  · intro m hm
    rw [move_of_ne (jarPath_ne_asidePath _ _ _ _) (by simpa using hne hm)]
    exact h.gone m (List.mem_cons_of_mem _ hm)
  · intro m hm
    rw [move_of_ne (by simpa using hne hm) (jarPath_ne_asidePath _ _ _ _).symm]
    exact h.kept m (List.mem_cons_of_mem _ hm)
  · intro place m hm
    by_cases heq : jarPath place m = jarPath folder n
    · rw [heq, move_dst, h.kept n hn]
    · rw [move_of_ne (jarPath_ne_asidePath _ _ _ _) heq]
      apply h.others place m
      rintro rfl hmem
      cases List.mem_cons.1 hmem with
      | inl h' => exact heq (h' ▸ rfl)
      | inr h' => exact hm rfl h'

/-- Restoring what was moved aside brings every jar back. -/
theorem Moved.restore (h : Moved folder before moved files) (place : TargetFolder) (n : JarName) :
    restoreSuperseded (moved.map (asidePath folder)) files (jarPath place n) =
      before (jarPath place n) := by
  unfold restoreSuperseded
  induction moved generalizing files with
  | nil => exact h.others place n (by simp)
  | cons m moved ih =>
    rw [List.map_cons, List.foldl_cons, trimSuffix_asidePath]
    exact ih h.putBack

/-- Discarding what was moved aside leaves every jar. -/
theorem discardSuperseded_jarPath (moved : List JarName) (files : Folders β) (place : TargetFolder)
    (n : JarName) :
    discardSuperseded (moved.map (asidePath folder)) files (jarPath place n) =
      files (jarPath place n) := by
  unfold discardSuperseded
  induction moved generalizing files with
  | nil => rfl
  | cons m moved ih =>
    rw [List.map_cons, List.foldl_cons, ih, removeAll_of_ne (jarPath_ne_asidePath _ _ _ _)]

/-- A file that was not moved is removed. -/
theorem Moved.removeAll (h : Moved folder before moved files) {n : JarName} (hn : n ∉ moved) :
    Moved folder (removeAll (jarPath folder n) before) moved
      (removeAll (jarPath folder n) files) := by
  have hne {m : JarName} (hm : m ∈ moved) : m ≠ n := fun heq => hn (heq ▸ hm)
  have hpath {m : JarName} (hm : m ∈ moved) : jarPath folder m ≠ jarPath folder n := by
    simpa using hne hm
  constructor
  · exact h.nodup
  · intro m hm
    rw [removeAll_of_ne (hpath hm)]
    exact h.had m hm
  · intro m hm
    rw [removeAll_of_ne (hpath hm), h.gone m hm]
  · intro m hm
    rw [removeAll_of_ne (jarPath_ne_asidePath _ _ _ _).symm, removeAll_of_ne (hpath hm),
      h.kept m hm]
  · intro place m hm
    by_cases heq : jarPath place m = jarPath folder n
    · rw [heq, removeAll_self, removeAll_self]
    · rw [removeAll_of_ne heq, removeAll_of_ne heq, h.others place m hm]

/-! ## What a removal moves aside -/

variable (faults : Faults) (equalFold : String → String → Bool) (f : Fetched β)

/-- The removal has moved aside some files, and keeps a list of them. -/
def Kept (before : Folders β) (moved : List JarName) (r : Removal β) : Prop :=
  r.aside = moved.map (asidePath f.folder) ∧ Moved f.folder before moved r.files

/-- The removal has moved aside exactly the files of a set, all of which it could rename. -/
structure Removed (before : Folders β) (S : Set JarName) (r : Removal β) : Prop where
  kept : ∃ moved, (∀ n, n ∈ moved ↔ n ∈ S) ∧ Kept f before moved r
  clear : ∀ n ∈ S, faults.aside n = none
  enabled : r.sawEnabled = true ↔ ∃ n ∈ S, n.disabled = false
  disabled : r.sawDisabled = true ↔ ∃ n ∈ S, n.disabled = true

/-- What removing the files of a set comes to: all of them, or some, up to one that cannot be
renamed. -/
def Outcome (before : Folders β) (S : Set JarName) : Removing β (Removal β) → Prop
  | .ok r => Removed faults f before S r
  | .error (_, r) => (∃ moved, Kept f before moved r) ∧ ∃ n ∈ S, faults.aside n ≠ none

variable {faults equalFold f} {r : Removal β} {S T : Set JarName}

theorem Removed.withItems (h : Removed faults f before S r) (items : List ModManifestItem) :
    Removed faults f before S { r with items } :=
  ⟨h.kept, h.clear, h.enabled, h.disabled⟩

theorem Outcome.bind {m : Removing β (Removal β)} {k : Removal β → Removing β (Removal β)}
    (h : Outcome faults f before S m) (hsub : S ⊆ T)
    (hk : ∀ r, Removed faults f before S r → Outcome faults f before T (k r)) :
    Outcome faults f before T (m >>= k) := by
  cases m with
  | ok r => exact hk r h
  | error e =>
    obtain ⟨hkept, n, hn, hfault⟩ := h
    exact ⟨hkept, n, hsub hn, hfault⟩

/-- A loop removes what its steps remove. -/
theorem Outcome.foldlM {α : Type} {k : Removal β → α → Removing β (Removal β)}
    {F : α → Set JarName}
    (hk : ∀ S r a, Removed faults f before S r → Outcome faults f before (S ∪ F a) (k r a))
    (l : List α) (h : Removed faults f before S r) :
    Outcome faults f before (S ∪ {n | ∃ a ∈ l, n ∈ F a}) (l.foldlM k r) := by
  induction l generalizing S r with
  | nil =>
    have hset : S ∪ {n | ∃ a ∈ ([] : List α), n ∈ F a} = S := by simp
    rw [hset]
    exact h
  | cons a l ih =>
    rw [List.foldlM_cons]
    have hset : S ∪ {n | ∃ b ∈ a :: l, n ∈ F b} = S ∪ F a ∪ {n | ∃ b ∈ l, n ∈ F b} := by
      ext n
      simp [or_assoc]
    rw [hset]
    exact (hk S r a h).bind Set.subset_union_left fun r' h' => ih h'

/-- A file of the set is not there any more, and every other one is as before. -/
theorem Removed.file_eq_none (h : Removed faults f before S r) {n : JarName} (hn : n ∈ S) :
    r.files (jarPath f.folder n) = none := by
  obtain ⟨moved, hmem, -, hmoved⟩ := h.kept
  exact hmoved.gone n ((hmem n).2 hn)

theorem Removed.file_eq (h : Removed faults f before S r) {place : TargetFolder} {n : JarName}
    (hn : place = f.folder → n ∉ S) : r.files (jarPath place n) = before (jarPath place n) := by
  obtain ⟨moved, hmem, -, hmoved⟩ := h.kept
  exact hmoved.others place n fun hplace hin => hn hplace ((hmem n).1 hin)

/-- The file of the name, if there is one. -/
def existing (before : Folders β) (f : Fetched β) (n : JarName) : Set JarName :=
  {m | m = n ∧ before (jarPath f.folder n) ≠ none}

/-- A removal after one more file was moved aside. -/
def Removal.withAside (f : Fetched β) (r : Removal β) (n : JarName) : Removal β where
  files := move (jarPath f.folder n) (asidePath f.folder n) r.files
  items := r.items
  aside := r.aside ++ [asidePath f.folder n]
  sawEnabled := r.sawEnabled || ! n.disabled
  sawDisabled := r.sawDisabled || n.disabled

theorem Removed.withAside (h : Removed faults f before S r) {n : JarName}
    (hn : r.files (jarPath f.folder n) ≠ none) (hclear : faults.aside n = none) :
    Removed faults f before (S ∪ existing before f n) (r.withAside f n) := by
  obtain ⟨moved, hmem, haside, hmoved⟩ := h.kept
  have hnot : n ∉ S := fun hin => hn (h.file_eq_none hin)
  have hset : S ∪ existing before f n = insert n S := by
    have hbefore : before (jarPath f.folder n) ≠ none := by
      rwa [← h.file_eq fun _ => hnot]
    ext m
    simp [existing, hbefore]
  rw [hset]
  constructor
  · refine ⟨moved ++ [n], ?_, ?_, hmoved.snoc hn⟩
    · intro m
      simp [hmem, or_comm]
    · simp [Removal.withAside, haside]
  · rintro m (rfl | hm)
    · exact hclear
    · exact h.clear m hm
  · simp [Removal.withAside, h.enabled, or_comm]
  · simp [Removal.withAside, h.disabled, or_comm]

/-- A step that moves one file aside, and notes its kind. -/
theorem Removed.ofMove (h : Removed faults f before S r) {n : JarName}
    {k : Removing β (Removal β)} (hn : r.files (jarPath f.folder n) ≠ none)
    (hok : faults.aside n = none → ∃ items, k = .ok { r.withAside f n with items })
    (hfail : ∀ e, faults.aside n = some e → ∃ msg r', k = .error (msg, r') ∧
      r'.files = r.files ∧ r'.aside = r.aside) :
    Outcome faults f before (S ∪ existing before f n) k := by
  cases hfault : faults.aside n with
  | none =>
    obtain ⟨items, rfl⟩ := hok hfault
    exact (h.withAside hn hfault).withItems items
  | some e =>
    obtain ⟨msg, r', rfl, hfiles, haside⟩ := hfail e hfault
    obtain ⟨moved, -, hkept⟩ := h.kept
    have hbefore : before (jarPath f.folder n) ≠ none := by
      rwa [← h.file_eq fun _ hin => hn (h.file_eq_none hin)]
    refine ⟨⟨moved, haside.trans hkept.1, hfiles ▸ hkept.2⟩, n, .inr ⟨rfl, hbefore⟩, ?_⟩
    rw [hfault]
    exact Option.some_ne_none e

theorem moveAside_of_clear {n : JarName} (hclear : faults.aside n = none)
    (hn : r.files (jarPath f.folder n) ≠ none) :
    moveAside faults f n r = .ok { r with
      files := move (jarPath f.folder n) (asidePath f.folder n) r.files
      aside := r.aside ++ [asidePath f.folder n] } := by
  rw [Mods.moveAside, hclear, renameFile_of_exists hn]

theorem moveAside_of_fault {n : JarName} {e : String} (hfault : faults.aside n = some e) :
    moveAside faults f n r =
      .error ("move superseded " ++ n.text ++ " aside: " ++ e, r) := by
  rw [Mods.moveAside, hfault]
  rfl

/-- A name of a file that is not there is passed over. -/
theorem Removed.of_absent (h : Removed faults f before S r) {n : JarName}
    (hn : r.files (jarPath f.folder n) = none) :
    Removed faults f before (S ∪ existing before f n) r := by
  have hset : S ∪ existing before f n = S := by
    apply Set.union_eq_left.2
    rintro m ⟨rfl, hbefore⟩
    by_contra hnot
    exact hbefore ((h.file_eq fun _ => hnot).symm.trans hn)
  rwa [hset]

theorem removeName_outcome (h : Removed faults f before S r) (n : JarName) :
    Outcome faults f before (S ∪ existing before f n) (removeName faults f r n) := by
  unfold removeName
  by_cases hn : r.files (jarPath f.folder n) = none
  · rw [if_pos hn]
    exact h.of_absent hn
  · rw [if_neg hn]
    apply h.ofMove hn
    · intro hclear
      refine ⟨r.items, ?_⟩
      cases hd : n.disabled <;>
        simp [moveAside_of_clear hclear, hn, Removal.withAside, hd]
    · intro e hfault
      cases hd : n.disabled <;> simp [moveAside_of_fault hfault]

theorem removeTwin_outcome (h : Removed faults f before S r) :
    Outcome faults f before (S ∪ existing before f ⟨f.version.fileName, true⟩)
      (removeTwin faults f r) := by
  unfold removeTwin
  by_cases hn : r.files (jarPath f.folder ⟨f.version.fileName, true⟩) = none
  · rw [if_pos hn]
    exact h.of_absent hn
  · rw [if_neg hn]
    apply h.ofMove hn
    · intro hclear
      rw [moveAside_of_clear hclear hn]
      refine ⟨removeByBase f.version.fileName r.items, ?_⟩
      simp [Removal.withAside, Bind.bind, Except.bind, Pure.pure, Except.pure]
    · intro e hfault
      rw [moveAside_of_fault hfault]
      exact ⟨_, r, rfl, rfl, rfl⟩

theorem remove_outcome (h : Removed faults f before S r) (base : Jar) :
    Outcome faults f before (S ∪ {n | n.base = base ∧ before (jarPath f.folder n) ≠ none})
      (remove faults f base r) := by
  have hset : {n : JarName | ∃ m ∈ variants base, n ∈ existing before f m} =
      {n | n.base = base ∧ before (jarPath f.folder n) ≠ none} := by
    ext n
    simp [mem_variants, existing]
  have hloop := Outcome.foldlM (fun S r n h => removeName_outcome h n) (variants base) h
  rw [hset] at hloop
  exact hloop.bind subset_rfl fun r' h' => h'.withItems _

/-! ## Rows -/

/-- The row is of a copy the version replaces. -/
def Replaces (equalFold : String → String → Bool) (f : Fetched β) (it : ModManifestItem) : Prop :=
  it.fileName.base ≠ f.version.fileName ∧
    (it.targetFolder = "" ∨ it.targetFolder = f.folder.text) ∧
    (samePrimary f it ∨ sameMod equalFold f it)

/-- The files the row stands for in the folder of the install. -/
def rowFiles (equalFold : String → String → Bool) (before : Folders β) (f : Fetched β)
    (it : ModManifestItem) : Set JarName :=
  {n | Replaces equalFold f it ∧ findJarFolder before it.fileName.base = some f.folder ∧
    n.base = it.fileName.base ∧ before (jarPath f.folder n) ≠ none}

/-- Where a jar is found changes only once its files were moved aside. -/
theorem Removed.rowFiles_subset (h : Removed faults f before S r) {it : ModManifestItem}
    (hfind : findJarFolder r.files it.fileName.base ≠ some f.folder) :
    rowFiles equalFold before f it ⊆ S := by
  rintro n ⟨-, hbefore, hn, hfile⟩
  by_contra hnot
  apply hfind
  rw [findJarFolder_eq_some] at hbefore ⊢
  refine ⟨⟨n, hn, ?_⟩, fun hplugins m hm => ?_⟩
  · rwa [h.file_eq fun _ => hnot]
  · rw [h.file_eq]
    · exact hbefore.2 hplugins m hm
    · intro hmods
      rw [hplugins] at hmods
      cases hmods

/-- A jar found in the folder was found there before. -/
theorem Removed.findJarFolder_before (h : Removed faults f before S r) {base : Jar}
    (hfind : findJarFolder r.files base = some f.folder) :
    findJarFolder before base = some f.folder := by
  rw [findJarFolder_eq_some] at hfind ⊢
  obtain ⟨⟨n, hn, hfile⟩, hmods⟩ := hfind
  refine ⟨⟨n, hn, ?_⟩, fun hplugins m hm => ?_⟩
  · rwa [← h.file_eq fun _ hin => hfile (h.file_eq_none hin)]
  · rw [← hmods hplugins m hm, h.file_eq]
    intro heq
    rw [hplugins] at heq
    cases heq

theorem removeRow_outcome (h : Removed faults f before S r) (it : ModManifestItem) :
    Outcome faults f before (S ∪ rowFiles equalFold before f it)
      (removeRow faults equalFold f r it) := by
  have hskip (hsub : rowFiles equalFold before f it ⊆ S) (items : List ModManifestItem) :
      Outcome faults f before (S ∪ rowFiles equalFold before f it) (.ok { r with items }) := by
    rw [Set.union_eq_left.2 hsub]
    exact h.withItems items
  unfold removeRow
  by_cases hreplaces : Replaces equalFold f it
  · obtain ⟨hbase, hfolder, hsame⟩ := hreplaces
    have htarget : ¬ (it.targetFolder ≠ "" ∧ it.targetFolder ≠ f.folder.text) := by tauto
    have hmatches : ¬ (¬ samePrimary f it ∧ ¬ sameMod equalFold f it) := by tauto
    rw [if_neg hbase, if_neg htarget, if_neg hmatches]
    cases hfind : findJarFolder r.files it.fileName.base with
    | none =>
      apply hskip (h.rowFiles_subset _)
      rw [hfind]
      exact (Option.some_ne_none _).symm
    | some place =>
      by_cases hplace : place = f.folder
      · have hset : rowFiles equalFold before f it =
            {n | n.base = it.fileName.base ∧ before (jarPath f.folder n) ≠ none} := by
          have hbefore := h.findJarFolder_before (hplace ▸ hfind)
          ext n
          simp [rowFiles, hbefore, Replaces, hbase, hfolder, hsame]
        simp only [hplace, if_true, hset]
        exact remove_outcome h it.fileName.base
      · simp only [hplace, if_false]
        apply hskip (h.rowFiles_subset _) r.items
        rw [hfind]
        exact fun heq => hplace (Option.some.inj heq)
  · have hsub : rowFiles equalFold before f it ⊆ S := fun n hn => absurd hn.1 hreplaces
    by_cases hbase : it.fileName.base = f.version.fileName
    · rw [if_pos hbase]
      exact hskip hsub r.items
    · rw [if_neg hbase]
      by_cases htarget : it.targetFolder ≠ "" ∧ it.targetFolder ≠ f.folder.text
      · rw [if_pos htarget]
        exact hskip hsub r.items
      · have hother : ¬ samePrimary f it ∧ ¬ sameMod equalFold f it := by
          unfold Replaces at hreplaces
          tauto
        rw [if_neg htarget, if_pos hother]
        exact hskip hsub r.items

/-- The files an install replaces: the one of the same name that is switched off, and those of
the rows of the same mod that are found in its folder. -/
def Superseded (equalFold : String → String → Bool) (before : Folders β)
    (items : List ModManifestItem) (f : Fetched β) : Set JarName :=
  existing before f ⟨f.version.fileName, true⟩ ∪
    {n | ∃ it ∈ items, n ∈ rowFiles equalFold before f it}

/-- The rows that go with the twin stand for no other file. -/
theorem removeTwin_items {r' : Removal β} (h : removeTwin faults f r = .ok r')
    {it : ModManifestItem} (hit : it.fileName.base ≠ f.version.fileName) :
    it ∈ r'.items ↔ it ∈ r.items := by
  unfold removeTwin at h
  by_cases hn : r.files (jarPath f.folder ⟨f.version.fileName, true⟩) = none
  · rw [if_pos hn] at h
    cases h
    rfl
  · rw [if_neg hn] at h
    cases hfault : faults.aside ⟨f.version.fileName, true⟩ with
    | none =>
      rw [moveAside_of_clear hfault hn] at h
      cases h
      simp [removeByBase, hit]
    | some e =>
      rw [moveAside_of_fault hfault] at h
      cases h

theorem removeSuperseded_outcome (items : List ModManifestItem) :
    Outcome faults f before (Superseded equalFold before items f)
      (removeSuperseded faults equalFold f { files := before, items }) := by
  have hstart : Removed faults f before ∅ { files := before, items } :=
    ⟨⟨[], by simp, rfl, Moved.nil _ _⟩, by simp, by simp, by simp⟩
  have htwin := removeTwin_outcome hstart
  rw [Set.empty_union] at htwin
  unfold removeSuperseded
  cases hout : removeTwin faults f { files := before, items } with
  | error e =>
    rw [hout] at htwin
    obtain ⟨hkept, n, hn, hfault⟩ := htwin
    exact ⟨hkept, n, .inl hn, hfault⟩
  | ok r =>
    rw [hout] at htwin
    have hrow (S : Set JarName) (r : Removal β) (it : ModManifestItem)
        (h : Removed faults f before S r) :
        Outcome faults f before (S ∪ rowFiles equalFold before f it)
          (removeRow faults equalFold f r it) :=
      removeRow_outcome h it
    have hloop := Outcome.foldlM hrow r.items htwin
    have hrows : {n | ∃ it ∈ r.items, n ∈ rowFiles equalFold before f it} =
        {n | ∃ it ∈ items, n ∈ rowFiles equalFold before f it} := by
      ext n
      constructor
      · rintro ⟨it, hit, hn⟩
        exact ⟨it, (removeTwin_items hout hn.1.1).1 hit, hn⟩
      · rintro ⟨it, hit, hn⟩
        exact ⟨it, (removeTwin_items hout hn.1.1).2 hit, hn⟩
    rw [hrows] at hloop
    exact hloop

/-! ## After the removal -/

/-- The new file stays disabled when all that was replaced was. -/
theorem Removed.wasDisabled_iff (h : Removed faults f before S r) :
    r.wasDisabled = true ↔ S.Nonempty ∧ ∀ n ∈ S, n.disabled = true := by
  have henabled : r.sawEnabled = false ↔ ∀ n ∈ S, n.disabled = true := by
    rw [Bool.eq_false_iff, Ne, h.enabled]
    simp
  rw [Removal.wasDisabled, Bool.and_eq_true, Bool.not_eq_true', h.disabled, henabled]
  constructor
  · rintro ⟨⟨n, hn, -⟩, hall⟩
    exact ⟨⟨n, hn⟩, hall⟩
  · rintro ⟨⟨n, hn⟩, hall⟩
    exact ⟨⟨n, hn, hall n hn⟩, hall⟩

/-- The new file taken out and the superseded ones put back. -/
theorem Removed.undo_eq (h : Removed faults f before S r) {n : JarName} (hn : n ∉ S)
    (place : TargetFolder) (m : JarName) :
    undo (jarPath f.folder n) r.aside r.files (jarPath place m) =
      removeAll (jarPath f.folder n) before (jarPath place m) := by
  obtain ⟨moved, hmem, haside, hmoved⟩ := h.kept
  have hnot : n ∉ moved := fun hin => hn ((hmem n).1 hin)
  rw [undo, haside]
  exact (hmoved.removeAll hnot).restore place m

theorem mem_upsert (item : ModManifestItem) (items : List ModManifestItem) :
    item ∈ upsert item items := by
  induction items with
  | nil => exact List.mem_singleton_self item
  | cons it items ih =>
    rw [upsert]
    split
    · exact List.mem_cons_self
    · exact List.mem_cons_of_mem _ ih

/-- The new jar is there under one of its two names, with its row, and what it replaces is gone. -/
structure Installed (equalFold : String → String → Bool) (f : Fetched β) (s after : Server β) :
    Prop where
  jar : ∃ disabled,
    after.files (jarPath f.folder ⟨f.version.fileName, disabled⟩) = some f.data ∧
    after.files (jarPath f.folder ⟨f.version.fileName, ! disabled⟩) = none ∧
    ∃ m, after.saved = some m ∧ installedItem f disabled ∈ m.items
  gone : ∀ it ∈ s.items, Replaces equalFold f it →
    it.targetFolder = f.folder.text ∨ findJarFolder s.files it.fileName.base = some f.folder →
    ∀ n, n.base = it.fileName.base → after.files (jarPath f.folder n) = none

/-- Every jar and the manifest are as they were. -/
def Unchanged (s after : Server β) : Prop :=
  after.saved = s.saved ∧
    ∀ place n, after.files (jarPath place n) = s.files (jarPath place n)

/-- An install either succeeds or changes nothing. -/
def AllOrNothing (equalFold : String → String → Bool) (f : Fetched β) (s : Server β) :
    Except String Unit × Server β → Prop
  | (.ok _, after) => Installed equalFold f s after
  | (.error _, after) => Unchanged s after

/-- A step after the removal fails. -/
def FailsLater (faults : Faults) (olds : Set JarName) : Prop :=
  (olds.Nonempty ∧ ∀ n ∈ olds, n.disabled = true) ∧ faults.keepDisabled ≠ none ∨
    faults.save ≠ none

/-- What the failures of an install ask of the files before it. -/
structure Revertible (faults : Faults) (equalFold : String → String → Bool) (f : Fetched β)
    (s : Server β) (olds : Set JarName) : Prop where
  /-- The new file is left where it is. -/
  asideFails : (∃ n ∈ olds, faults.aside n ≠ none) →
    s.files (jarPath f.folder f.download) = some f.data
  /-- The new file is taken out. -/
  failsLater : (∀ n ∈ olds, faults.aside n = none) → FailsLater faults olds →
    s.files (jarPath f.folder f.download) = none
  /-- A jar that is in both folders is only found in one. -/
  succeeds : (∀ n ∈ olds, faults.aside n = none) → ¬ FailsLater faults olds →
    ∀ it ∈ s.items, Replaces equalFold f it → it.targetFolder = f.folder.text →
      findJarFolder s.files it.fileName.base = some f.folder ∨
        ∀ n, n.base = it.fileName.base → s.files (jarPath f.folder n) = none

/-- The files after the download. -/
def downloaded (f : Fetched β) (files : Folders β) : Folders β :=
  Function.update files (jarPath f.folder f.download) (some f.data)

theorem downloaded_download (f : Fetched β) (files : Folders β) :
    downloaded f files (jarPath f.folder f.download) = some f.data :=
  Function.update_self _ _ _

theorem downloaded_of_ne {n : JarName} (hn : n ≠ f.download) (files : Folders β)
    (place : TargetFolder) :
    downloaded f files (jarPath place n) = files (jarPath place n) := by
  apply Function.update_of_ne
  simp [hn]

theorem ne_download {n : JarName} (hn : n.base ≠ f.version.fileName) : n ≠ f.download :=
  fun heq => hn (heq ▸ rfl)

/-- The download replaces none of the files the install is to move. -/
theorem superseded_downloaded (files : Folders β) (items : List ModManifestItem) :
    Superseded equalFold (downloaded f files) items f = Superseded equalFold files items f := by
  have htwin : existing (downloaded f files) f ⟨f.version.fileName, true⟩ =
      existing files f ⟨f.version.fileName, true⟩ := by
    rw [existing, existing, downloaded_of_ne]
    simp [Fetched.download]
  have hrow (it : ModManifestItem) :
      rowFiles equalFold (downloaded f files) f it = rowFiles equalFold files f it := by
    ext n
    apply and_congr_right
    intro hreplaces
    have hfile (place : TargetFolder) (m : JarName) (hm : m.base = it.fileName.base) :
        downloaded f files (jarPath place m) = files (jarPath place m) :=
      downloaded_of_ne (ne_download (hm ▸ hreplaces.1)) files place
    rw [findJarFolder_congr hfile]
    apply and_congr_right
    intro _
    apply and_congr_right
    intro hn
    rw [hfile f.folder n hn]
  simp only [Superseded, htwin, hrow]

/-- The download is not one of the files the install replaces. -/
theorem download_notMem (files : Folders β) (items : List ModManifestItem) :
    f.download ∉ Superseded equalFold files items f := by
  rintro (⟨heq, -⟩ | ⟨it, -, hreplaces, -, hbase, -⟩)
  · exact absurd (congrArg JarName.disabled heq) Bool.false_ne_true
  · exact hreplaces.1 hbase.symm

/-- No file of the new name is left switched off by the removal. -/
theorem Removed.twin_eq_none {items : List ModManifestItem}
    (h : Removed faults f before (Superseded equalFold before items f) r) :
    r.files (jarPath f.folder ⟨f.version.fileName, true⟩) = none := by
  by_cases htwin : before (jarPath f.folder ⟨f.version.fileName, true⟩) = none
  · rw [h.file_eq, htwin]
    rintro - (⟨-, hfile⟩ | ⟨it, -, -, -, -, hfile⟩)
    · exact hfile htwin
    · exact hfile htwin
  · exact h.file_eq_none (.inl ⟨rfl, htwin⟩)

/-- The jars are as before the download where that replaced nothing. -/
theorem removeAll_downloaded_iff (files : Folders β) :
    (∀ place n, removeAll (jarPath f.folder f.download) (downloaded f files) (jarPath place n) =
      files (jarPath place n)) ↔ files (jarPath f.folder f.download) = none := by
  constructor
  · intro h
    rw [← h f.folder f.download, removeAll_self]
  · intro h place n
    by_cases hpath : jarPath place n = jarPath f.folder f.download
    · rw [hpath, removeAll_self, h]
    · rw [removeAll_of_ne hpath, downloaded, Function.update_of_ne hpath]

theorem downloaded_iff (files : Folders β) :
    (∀ place n, downloaded f files (jarPath place n) = files (jarPath place n)) ↔
      files (jarPath f.folder f.download) = some f.data := by
  constructor
  · intro h
    rw [← h f.folder f.download, downloaded_download]
  · intro h place n
    rw [downloaded, ← h, Function.update_eq_self]

section

variable {s : Server β} (manifest : ModManifest)
  (h : Removed faults f (downloaded f s.files) (Superseded equalFold s.files s.items f) r)
include h

/-- The new file is in place until it is renamed or taken out. -/
theorem Removed.download_eq : r.files (jarPath f.folder f.download) = some f.data := by
  rw [h.file_eq fun _ => download_notMem s.files s.items, downloaded_download]

theorem Removed.twin_free : r.files (jarPath f.folder ⟨f.version.fileName, true⟩) = none := by
  rw [← superseded_downloaded] at h
  exact h.twin_eq_none

/-- The files once the new one has the name it keeps. -/
def kept (f : Fetched β) (r : Removal β) : Folders β :=
  if r.wasDisabled then
    move (jarPath f.folder f.download) (jarPath f.folder ⟨f.version.fileName, true⟩) r.files
  else r.files

theorem Removed.keepDisabled_eq :
    keepDisabled faults f r.wasDisabled r.files =
      if r.wasDisabled then
        match faults.keepDisabled with
        | some e => .error (.other e)
        | none => .ok (Mods.kept f r)
      else .ok (Mods.kept f r) := by
  have hdownload : r.files (jarPath f.folder f.download) ≠ none := by
    rw [h.download_eq]
    exact Option.some_ne_none _
  cases hd : r.wasDisabled with
  | false => simp [keepDisabled, Mods.kept, hd]
  | true =>
    cases hfault : faults.keepDisabled with
    | none => simp [keepDisabled, Mods.kept, hd, hfault, renameFile_of_exists hdownload]
    | some e => simp [keepDisabled, hfault, renameFile]

/-- Taking the new file out under the name it has been given. -/
theorem Removed.removeAll_kept :
    removeAll (jarPath f.folder ⟨f.version.fileName, r.wasDisabled⟩) (Mods.kept f r) =
      removeAll (jarPath f.folder f.download) r.files := by
  cases hd : r.wasDisabled with
  | false => simp [Mods.kept, hd, Fetched.download]
  | true =>
    rw [Mods.kept, hd, if_pos rfl]
    exact removeAll_move (by simp [Fetched.download]) h.twin_free

/-- After a later failure the superseded files are back, and the new one is gone. -/
theorem Removed.finish_failsLater
    (hfails : FailsLater faults (Superseded equalFold s.files s.items f)) :
    ∃ e after, finish faults f s manifest r = (.error e, after) ∧ after.saved = s.saved ∧
      ∀ place n, after.files (jarPath place n) =
        removeAll (jarPath f.folder f.download) (downloaded f s.files) (jarPath place n) := by
  have hundo := h.undo_eq (download_notMem s.files s.items)
  have hsave {e : String} (he : faults.save = some e)
      (hkeep : keepDisabled faults f r.wasDisabled r.files = .ok (Mods.kept f r)) :
      finish faults f s manifest r = (.error e, { s with
        files := undo (jarPath f.folder f.download) r.aside r.files }) := by
    simp only [finish, hkeep, he, installedItem, undo, h.removeAll_kept]
  have hkeep := h.keepDisabled_eq
  cases hd : r.wasDisabled with
  | false =>
    rw [hd] at hkeep
    have hne : faults.save ≠ none := by
      apply hfails.resolve_left
      intro hkept
      rw [← h.wasDisabled_iff, hd] at hkept
      exact Bool.false_ne_true hkept.1
    obtain ⟨e, he⟩ := Option.ne_none_iff_exists'.1 hne
    exact ⟨e, _, hsave he (hd ▸ hkeep), rfl, hundo⟩
  | true =>
    cases hfault : faults.keepDisabled with
    | some e =>
      rw [hd, hfault] at hkeep
      refine ⟨"keep " ++ f.version.fileName.name ++ " disabled: " ++ e,
        { s with files := undo (jarPath f.folder f.download) r.aside r.files }, ?_, rfl, hundo⟩
      simp only [finish, hd, hkeep, if_true]
      rfl
    | none =>
      rw [hd, hfault] at hkeep
      have hne : faults.save ≠ none := hfails.resolve_left fun hkept => hkept.2 hfault
      obtain ⟨e, he⟩ := Option.ne_none_iff_exists'.1 hne
      exact ⟨e, _, hsave he (hd ▸ hkeep), rfl, hundo⟩

/-- Without a later failure the manifest is saved, and what was moved aside is gone. -/
theorem Removed.finish_succeeds
    (hfails : ¬ FailsLater faults (Superseded equalFold s.files s.items f)) :
    ∃ after, finish faults f s manifest r = (.ok (), after) ∧
      after.saved = some { manifest with
        items := upsert (installedItem f r.wasDisabled) r.items } ∧
      ∀ place n, after.files (jarPath place n) = Mods.kept f r (jarPath place n) := by
  obtain ⟨hnotkept, hnotsave⟩ := not_or.1 hfails
  have hsave : faults.save = none := not_not.1 hnotsave
  have hkeep : keepDisabled faults f r.wasDisabled r.files = .ok (Mods.kept f r) := by
    rw [h.keepDisabled_eq]
    cases hd : r.wasDisabled with
    | false => rfl
    | true =>
      have hnone : faults.keepDisabled = none := by
        by_contra hne
        exact hnotkept ⟨h.wasDisabled_iff.1 hd, hne⟩
      rw [hnone]
      rfl
  obtain ⟨moved, -, haside, -⟩ := h.kept
  refine ⟨⟨discardSuperseded r.aside (Mods.kept f r),
    some { manifest with items := upsert (installedItem f r.wasDisabled) r.items }⟩,
    by simp only [finish, hkeep, hsave], rfl, fun place n => ?_⟩
  rw [haside]
  exact discardSuperseded_jarPath moved _ place n

/-- A superseded file of a saved install is gone where its row was followed, or was never there. -/
theorem Removed.kept_eq_none_iff {it : ModManifestItem} (hit : it ∈ s.items)
    (hreplaces : Replaces equalFold f it) :
    (∀ n, n.base = it.fileName.base → Mods.kept f r (jarPath f.folder n) = none) ↔
      (findJarFolder s.files it.fileName.base = some f.folder ∨
        ∀ n, n.base = it.fileName.base → s.files (jarPath f.folder n) = none) := by
  have hkept (n : JarName) (hn : n.base = it.fileName.base) :
      Mods.kept f r (jarPath f.folder n) = r.files (jarPath f.folder n) := by
    have hbase : n.base ≠ f.version.fileName := hn ▸ hreplaces.1
    unfold Mods.kept
    split
    · apply move_of_ne
      · simpa using ne_download hbase
      · rw [Ne, jarPath_inj]
        rintro ⟨-, rfl⟩
        exact hbase rfl
    · rfl
  have hfile (n : JarName) (hn : n.base = it.fileName.base)
      (hnot : n ∉ Superseded equalFold s.files s.items f) :
      r.files (jarPath f.folder n) = s.files (jarPath f.folder n) := by
    rw [h.file_eq fun _ => hnot, downloaded_of_ne (ne_download (hn ▸ hreplaces.1))]
  constructor
  · intro hnone
    by_contra hboth
    obtain ⟨hfind, hsome⟩ := not_or.1 hboth
    apply hsome
    intro n hn
    rw [← hnone n hn, hkept n hn, hfile n hn]
    rintro (⟨rfl, -⟩ | ⟨it', -, -, hfind', hbase, -⟩)
    · exact hreplaces.1 hn.symm
    · rw [← hbase, hn] at hfind'
      exact hfind hfind'
  · rintro hgone n hn
    rw [hkept n hn]
    by_cases hin : n ∈ Superseded equalFold s.files s.items f
    · exact h.file_eq_none hin
    · rw [hfile n hn hin]
      cases hgone with
      | inl hfind =>
        by_contra hsome
        exact hin (.inr ⟨it, hit, hreplaces, hfind, hn, hsome⟩)
      | inr hnone => exact hnone n hn

/-- The new jar has one of its two names. -/
theorem Removed.kept_jar :
    Mods.kept f r (jarPath f.folder ⟨f.version.fileName, r.wasDisabled⟩) = some f.data ∧
      Mods.kept f r (jarPath f.folder ⟨f.version.fileName, ! r.wasDisabled⟩) = none := by
  cases hd : r.wasDisabled with
  | false =>
    rw [Mods.kept, hd, if_neg Bool.false_ne_true]
    exact ⟨h.download_eq, h.twin_free⟩
  | true =>
    rw [Mods.kept, hd, if_pos rfl]
    refine ⟨(move_dst _ _ _).trans h.download_eq, ?_⟩
    exact move_src (by simp [Fetched.download]) r.files

end

/-- What the removal has done decides the rest. -/
theorem Removed.allOrNothing_iff {s : Server β}
    (h : Removed faults f (downloaded f s.files) (Superseded equalFold s.files s.items f) r)
    (manifest : ModManifest) :
    AllOrNothing equalFold f s (finish faults f s manifest r) ↔
      Revertible faults equalFold f s (Superseded equalFold s.files s.items f) := by
  by_cases hfails : FailsLater faults (Superseded equalFold s.files s.items f)
  · obtain ⟨e, after, hfinish, hsaved, hfiles⟩ := h.finish_failsLater manifest hfails
    rw [hfinish]
    constructor
    · rintro ⟨-, hunchanged⟩
      refine ⟨?_, fun _ _ => ?_, fun _ hnot => absurd hfails hnot⟩
      · rintro ⟨n, hn, hfault⟩
        exact absurd (h.clear n hn) hfault
      · rw [← removeAll_downloaded_iff]
        exact fun place n => (hfiles place n).symm.trans (hunchanged place n)
    · intro hrevert
      refine ⟨hsaved, fun place n => (hfiles place n).trans ?_⟩
      exact (removeAll_downloaded_iff s.files).2 (hrevert.failsLater h.clear hfails) place n
  · obtain ⟨after, hfinish, hsaved, hfiles⟩ := h.finish_succeeds manifest hfails
    rw [hfinish]
    constructor
    · intro hinstalled
      refine ⟨?_, fun _ hlater => absurd hlater hfails, fun _ _ it hit hreplaces hfolder => ?_⟩
      · rintro ⟨n, hn, hfault⟩
        exact absurd (h.clear n hn) hfault
      · rw [← h.kept_eq_none_iff hit hreplaces]
        intro n hn
        rw [← hfiles]
        exact hinstalled.gone it hit hreplaces (.inl hfolder) n hn
    · intro hrevert
      constructor
      · refine ⟨r.wasDisabled, ?_, ?_, _, hsaved, mem_upsert _ _⟩
        · rw [hfiles]
          exact h.kept_jar.1
        · rw [hfiles]
          exact h.kept_jar.2
      · intro it hit hreplaces hwhere n hn
        rw [hfiles]
        apply (h.kept_eq_none_iff hit hreplaces).2 _ n hn
        cases hwhere with
        | inl hfolder => exact hrevert.succeeds h.clear hfails it hit hreplaces hfolder
        | inr hfind => exact .inl hfind

theorem install_eq (faults : Faults) (equalFold : String → String → Bool) (f : Fetched β)
    (s : Server β) : install faults equalFold f s =
      match removeSuperseded faults equalFold f
        { files := downloaded f s.files, items := s.items } with
      | .error (e, r) => (.error e, { s with files := restoreSuperseded r.aside r.files })
      | .ok r => finish faults f s (s.saved.getD ⟨modManifestVersion, []⟩) r := rfl

/-- An install succeeds or changes nothing exactly where what the download replaced is of no
account to the step that fails, and where a superseded file is found in its folder. -/
theorem install_allOrNothing (faults : Faults) (equalFold : String → String → Bool)
    (f : Fetched β) (s : Server β) :
    AllOrNothing equalFold f s (install faults equalFold f s) ↔
      Revertible faults equalFold f s (Superseded equalFold s.files s.items f) := by
  have hout : Outcome faults f (downloaded f s.files) (Superseded equalFold s.files s.items f)
      (removeSuperseded faults equalFold f { files := downloaded f s.files, items := s.items }) := by
    rw [← superseded_downloaded]
    exact removeSuperseded_outcome s.items
  rw [install_eq]
  cases hremoved : removeSuperseded faults equalFold f
      { files := downloaded f s.files, items := s.items } with
  | ok r =>
    rw [hremoved] at hout
    exact hout.allOrNothing_iff _
  | error stopped =>
    rw [hremoved] at hout
    obtain ⟨⟨moved, haside, hmoved⟩, n, hn, hfault⟩ := hout
    have hrestored (place : TargetFolder) (m : JarName) :
        restoreSuperseded stopped.2.aside stopped.2.files (jarPath place m) =
          downloaded f s.files (jarPath place m) := by
      rw [haside]
      exact hmoved.restore place m
    constructor
    · rintro ⟨-, hunchanged⟩
      refine ⟨fun _ => ?_, fun hclear => absurd (hclear n hn) hfault,
        fun hclear => absurd (hclear n hn) hfault⟩
      rw [← downloaded_iff]
      exact fun place m => (hrestored place m).symm.trans (hunchanged place m)
    · intro hrevert
      refine ⟨rfl, fun place m => (hrestored place m).trans ?_⟩
      exact (downloaded_iff s.files).2 (hrevert.asideFails ⟨n, hn, hfault⟩) place m

end

/-! ## An update under the name the old file has -/

def sampleJar : Jar where
  name := "lithium.jar"
  jar := by decide
  bare := by decide

def sampleVersion : Fetched String where
  loader := "fabric"
  version := ⟨"v2", "lithium", "Lithium 2", "2", sampleJar, "9f", false⟩
  data := "new"
  modID := "lithium"
  project := none
  now := 2

def sampleServer : Server String where
  files := Function.update (fun _ => none) "mods/lithium.jar" (some "old")
  saved := some ⟨modManifestVersion, [{ installedItem sampleVersion false with
    displayName := "Lithium 1", versionID := "v1", versionNumber := "1", installedAt := 1 }]⟩

/-- The manifest cannot be saved: the old file is lost, and its row is still there. -/
theorem install_loses_old :
    ¬ AllOrNothing (· = ·) sampleVersion sampleServer
      (install { save := some "disk full" } (· = ·) sampleVersion sampleServer) := by
  have hfailed : (install { save := some "disk full" } (· = ·) sampleVersion sampleServer).1 =
      .error "disk full" := by decide +kernel
  have hlost : (install { save := some "disk full" } (· = ·) sampleVersion sampleServer).2.files
      (jarPath .mods ⟨sampleJar, false⟩) = none := by decide +kernel
  have hold : sampleServer.files (jarPath .mods ⟨sampleJar, false⟩) = some "old" := by
    decide +kernel
  generalize install { save := some "disk full" } (· = ·) sampleVersion sampleServer = out
    at hfailed hlost
  obtain ⟨result, after⟩ := out
  obtain rfl : result = .error "disk full" := hfailed
  rintro ⟨-, hunchanged⟩
  rw [hunchanged, hold] at hlost
  cases hlost

end Konnekt.Mods
