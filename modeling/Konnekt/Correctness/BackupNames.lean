import Konnekt.Backup.Root
import Konnekt.Correctness.BackupRoundTrip

/-!
# Archives found by their names

In every state of the backups of a server a name is in one folder at most, so that
it finds the archive that was made under it, and deletes no other. A world whose
name is not one of a folder is the exception: its archive is made where no search
comes by.
-/

namespace Konnekt.Backup

open Go

variable {t t' : Tree} {dir dir' : List String} {name : String}

/-! ## Names of archives -/

theorem digitChar_ne {d : Nat} (h : d < 10) : digitChar d ≠ '/' ∧ digitChar d ≠ '\\' := by
  have hall : ∀ d : Fin 10, digitChar d ≠ '/' ∧ digitChar d ≠ '\\' := by decide
  exact hall ⟨d, h⟩

/-- A text without a separator of any platform. -/
def Slashless (text : String) : Prop := ∀ c ∈ text.toList, c ≠ '/' ∧ c ≠ '\\'

theorem Slashless.append {a b : String} (ha : Slashless a) (hb : Slashless b) :
    Slashless (a ++ b) := by
  intro c hc
  rw [String.toList_append, List.mem_append] at hc
  exact hc.elim (ha c) (hb c)

theorem slashless_padded (width n : Nat) : Slashless (padded width n) := by
  intro c hc
  rw [padded, String.toList_ofList, List.mem_map] at hc
  obtain ⟨i, -, rfl⟩ := hc
  exact digitChar_ne (Nat.mod_lt _ (by decide))

theorem slashless_newBackupName (draw : Fin 100000 × Stamp) : Slashless (newBackupName draw) := by
  have hfixed {text : String} (h : text.toList.all (fun c => c ≠ '/' ∧ c ≠ '\\') = true) :
      Slashless text := fun c hc => of_decide_eq_true (List.all_eq_true.1 h c hc)
  have hline : Slashless "_" := hfixed (by decide)
  have hzip : Slashless ".zip" := hfixed (by decide)
  have hnumber := slashless_padded
  unfold newBackupName
  exact (((((((((((hnumber _ _).append hline).append (hnumber _ _)).append hline).append
    (hnumber _ _)).append hline).append (hnumber _ _)).append hline).append
    (hnumber _ _)).append (hnumber _ _)).append (hnumber _ _)).append hzip

/-- A drawn name can be asked for. -/
theorem validateFilename_newBackupName (draw : Fin 100000 × Stamp) :
    validateFilename (newBackupName draw) = none := by
  have hchars := slashless_newBackupName draw
  have hslash : '/' ∉ (newBackupName draw).toList := fun h => (hchars _ h).1 rfl
  have hzip : ".zip".toList <:+ (newBackupName draw).toList := by
    rw [newBackupName, String.toList_append]
    exact List.suffix_append _ _
  have hne : newBackupName draw ≠ "" := by
    intro heq
    rw [heq] at hzip
    exact absurd hzip (by decide)
  have hbase : Path.base (newBackupName draw) = newBackupName draw := by
    have hparts : Path.parts (newBackupName draw) = [newBackupName draw] := by
      rw [Path.parts, split, splitChars_of_not_mem hslash, List.map_singleton,
        String.ofList_toList]
    rw [Path.base, if_neg hne, hparts, List.reverse_singleton, List.find?_cons,
      decide_eq_true hne]
    rfl
  have hany : (newBackupName draw).toList.any (fun c => c == '/' || c == '\\') = false := by
    rw [List.any_eq_false]
    intro c hc
    simp [hchars c hc]
  rw [validateFilename, hbase, hany, if_neg (by simp), if_neg (not_not_intro hzip)]

/-- A valid name is that of an archive, and none of the folders' or the metadata's. -/
theorem ne_of_valid (h : validateFilename name = none) :
    name ≠ "server" ∧ name ≠ "worlds" ∧ name ≠ "meta.json" := by
  have hzip : ".zip".toList <:+ name.toList := by
    unfold validateFilename at h
    split at h
    · cases h
    · split at h
      · cases h
      · next hzip => exact not_not.1 hzip
  refine ⟨?_, ?_, ?_⟩ <;> rintro rfl <;> exact absurd hzip (by decide)

/-! ## Folders -/

/-- A folder in which archives are looked for. -/
def Folder (dir : List String) : Prop :=
  dir = ["server"] ∨ (∃ world, dir = ["worlds", world]) ∨ dir = []

/-- Where the search of a folder finds an archive, and what it takes it for. -/
def foundIn (dir : List String) (name : String) : FoundBackup :=
  match dir with
  | ["server"] => ⟨["server", name], ["server"], "server", ""⟩
  | ["worlds", world] => ⟨["worlds", world, name], ["worlds", world], "world", world⟩
  | _ => ⟨[name], [], if isServerFilename name then "server" else "world", ""⟩

theorem foundIn_path (h : Folder dir) (name : String) :
    (foundIn dir name).filePath = dir ++ [name] ∧ (foundIn dir name).metaDir = dir := by
  rcases h with rfl | ⟨world, rfl⟩ | rfl <;> exact ⟨rfl, rfl⟩

/-- A folder has a node of the name. -/
def Holds (t : Tree) (dir : List String) (name : String) : Prop :=
  Folder dir ∧ isThere t (dir ++ [name]) = true

/-- The backups of a server: everything is in a directory, and a name in one folder at most. -/
structure BackupRoot (t : Tree) : Prop where
  parents : ∀ p n, p ≠ [] → t.lookup p = some n → p.dropLast = [] ∨ t.lookup p.dropLast = some .dir
  unique : ∀ name dir dir', validateFilename name = none → Holds t dir name → Holds t dir' name →
    dir = dir'

theorem mem_worldDirs {world : String} :
    world ∈ worldDirs t ↔ t.lookup ["worlds", world] = some .dir := by
  rw [worldDirs, List.mem_map]
  constructor
  · rintro ⟨d, hd, rfl⟩
    obtain ⟨hmem, hisDir⟩ := List.mem_filter.1 hd
    obtain ⟨n, hlookup, heq⟩ := mem_readDir.1 hmem
    rw [hisDir, eq_comm, beq_iff_eq] at heq
    rw [← heq]
    exact hlookup
  · intro h
    exact ⟨⟨world, true⟩, List.mem_filter.2 ⟨mem_readDir.2 ⟨.dir, h, rfl⟩, rfl⟩, rfl⟩

/-- The folder of a world is there as long as something is in it. -/
theorem BackupRoot.mem_worldDirs (h : BackupRoot t) {world : String}
    (hholds : isThere t ["worlds", world, name] = true) : world ∈ worldDirs t := by
  obtain ⟨n, hn⟩ := Option.isSome_iff_exists.1 hholds
  rcases h.parents _ n (by simp) hn with hnil | hdir
  · cases hnil
  · exact Konnekt.Backup.mem_worldDirs.2 hdir

/-- A name finds what the folder that holds it has of that name. -/
theorem findBackupFile_of_holds (h : BackupRoot t) (hvalid : validateFilename name = none)
    (hholds : Holds t dir name) : findBackupFile t name = some (foundIn dir name) := by
  have hother (dir' : List String) (hfolder : Folder dir') (hne : dir' ≠ dir) :
      isThere t (dir' ++ [name]) = false := by
    rw [← Bool.not_eq_true]
    exact fun hthere => hne (h.unique name dir' dir hvalid ⟨hfolder, hthere⟩ hholds)
  have hnotServer (hne : dir ≠ ["server"]) : isThere t ["server", name] = false :=
    hother ["server"] (.inl rfl) hne.symm
  obtain ⟨hfolder, hthere⟩ := hholds
  unfold findBackupFile
  rcases hfolder with rfl | ⟨world, rfl⟩ | rfl
  · change isThere t ["server", name] = true at hthere
    rw [if_pos hthere]
    rfl
  · have hfind : (worldDirs t).find? (fun w => isThere t ["worlds", w, name]) = some world := by
      cases hfound : (worldDirs t).find? fun w => isThere t ["worlds", w, name] with
      | none =>
        rw [List.find?_eq_none] at hfound
        exact absurd hthere (hfound world (h.mem_worldDirs hthere))
      | some w =>
        have hw := List.find?_some hfound
        by_contra hne
        have hdiffer : ["worlds", w] ≠ ["worlds", world] := by
          intro heq
          exact hne (by simpa using heq)
        have hgone := hother ["worlds", w] (.inr (.inl ⟨w, rfl⟩)) hdiffer
        rw [show isThere t ["worlds", w, name] = false from hgone] at hw
        cases hw
    rw [hnotServer (by simp), if_neg Bool.false_ne_true, hfind]
    rfl
  · have hfind : (worldDirs t).find? (fun w => isThere t ["worlds", w, name]) = none := by
      rw [List.find?_eq_none]
      intro w _
      rw [Bool.not_eq_true]
      exact hother ["worlds", w] (.inr (.inl ⟨w, rfl⟩)) (by simp)
    rw [hnotServer (by simp), if_neg Bool.false_ne_true, hfind]
    exact if_pos hthere

/-- What is found is held by a folder. -/
theorem holds_of_findBackupFile {found : FoundBackup} (h : findBackupFile t name = some found) :
    ∃ dir, Holds t dir name ∧ found = foundIn dir name := by
  unfold findBackupFile at h
  split at h
  · next hthere =>
    obtain rfl := Option.some.inj h
    exact ⟨["server"], ⟨.inl rfl, hthere⟩, rfl⟩
  · split at h
    · next world hfound =>
      obtain rfl := Option.some.inj h
      have hthere := List.find?_some hfound
      exact ⟨["worlds", world], ⟨.inr (.inl ⟨world, rfl⟩), hthere⟩, rfl⟩
    · split at h
      · next hthere =>
        obtain rfl := Option.some.inj h
        exact ⟨[], ⟨.inr (.inr rfl), hthere⟩, rfl⟩
      · cases h

theorem not_holds_of_not_taken (h : BackupRoot t) (htaken : backupNameTaken t name = false) :
    ¬ Holds t dir name := by
  rintro ⟨hfolder, hthere⟩
  rw [backupNameTaken, List.any_eq_false] at htaken
  rcases hfolder with rfl | ⟨world, rfl⟩ | rfl
  · exact htaken ["server"] (by simp) hthere
  · apply htaken ["worlds", world] ?_ hthere
    exact List.mem_append_right _ (List.mem_map_of_mem (h.mem_worldDirs hthere))
  · exact htaken [] (by simp) hthere

/-! ## Changes of a tree -/

/-- Two trees differ in one path at most, with nothing in it unless it stays a directory, and in
a directory if anything is there. -/
structure Edit (path : List String) (t t' : Tree) : Prop where
  others : ∀ q, q ≠ path → t'.lookup q = t.lookup q
  childless : t'.lookup path = some .dir ∨
    ∀ q n, q ≠ [] → t.lookup q = some n → q.dropLast ≠ path
  parent : isThere t' path = true → path.dropLast = [] ∨ t.lookup path.dropLast = some .dir

theorem BackupRoot.childless (h : BackupRoot t) {path : List String} (hne : path ≠ [])
    (hdir : t.lookup path ≠ some .dir) (q : List String) (n : Node) (hq : q ≠ [])
    (hlookup : t.lookup q = some n) : q.dropLast ≠ path := by
  intro heq
  rcases h.parents q n hq hlookup with hnil | hparent
  · exact hne (heq ▸ hnil)
  · rw [heq] at hparent
    exact hdir hparent

/-- Nothing changes. -/
theorem BackupRoot.edit_refl (h : BackupRoot t) {path : List String} (hne : path ≠ []) :
    Edit path t t where
  others _ _ := rfl
  childless := by
    by_cases hdir : t.lookup path = some .dir
    · exact .inl hdir
    · exact .inr (h.childless hne hdir)
  parent hthere := by
    obtain ⟨n, hn⟩ := Option.isSome_iff_exists.1 hthere
    exact h.parents path n hne hn

/-- A file is written in a directory. -/
theorem BackupRoot.edit_insert (h : BackupRoot t) (data : List UInt8)
    (hdir : t.lookup (dir ++ [name]) ≠ some .dir)
    (hparent : dir = [] ∨ t.lookup dir = some .dir) :
    Edit (dir ++ [name]) t (t.insert (dir ++ [name]) (.file data)) where
  others _ hq := AList.lookup_insert_ne hq
  childless := .inr (h.childless (by simp) hdir)
  parent _ := by rwa [List.dropLast_concat]

theorem edit_erase {path : List String}
    (hchild : ∀ q n, q ≠ [] → t.lookup q = some n → q.dropLast ≠ path) :
    Edit path t (t.erase path) where
  others _ hq := AList.lookup_erase_ne hq
  childless := .inr hchild
  parent hthere := by
    rw [isThere, AList.lookup_erase] at hthere
    cases hthere

/-- A file or an empty directory is removed. -/
theorem BackupRoot.edit_remove (h : BackupRoot t) {path : List String} (hne : path ≠ []) :
    Edit path t (remove t path) := by
  unfold remove
  split
  · exact h.edit_refl hne
  · next data hlookup =>
    apply edit_erase
    exact h.childless hne (by simp [hlookup])
  · next hlookup =>
    split
    · next hempty =>
      apply edit_erase
      intro q n hq hn heq
      have hmem : ⟨q.getLast hq, n == .dir⟩ ∈ readDir t path := by
        rw [mem_readDir, ← heq, List.dropLast_append_getLast]
        exact ⟨n, hn, rfl⟩
      rw [List.isEmpty_iff.1 hempty] at hmem
      cases hmem
    · exact h.edit_refl hne

/-- The metadata of a folder is written. -/
theorem BackupRoot.edit_writeMeta (h : BackupRoot t) (info : Option (List UInt8))
    (hparent : dir = [] ∨ t.lookup dir = some .dir) :
    Edit (dir ++ ["meta.json"]) t (writeMeta dir info t) := by
  have hsame : Edit (dir ++ ["meta.json"]) t t := h.edit_refl (by simp)
  unfold writeMeta
  split
  · exact hsame
  · next data =>
    cases hwrite : t.writeFile (dir ++ ["meta.json"]) data with
    | error e => exact hsame
    | ok t' =>
      obtain ⟨hdir, rfl⟩ := Tree.writeFile_eq_ok hwrite
      exact h.edit_insert data hdir hparent

/-- A change keeps the names in their folders, if it brings no archive where its name is held
already. -/
theorem BackupRoot.edit (h : BackupRoot t) {path : List String} (hpath : path ≠ [])
    (hedit : Edit path t t')
    (hnew : ∀ dir name, validateFilename name = none → path = dir ++ [name] →
      isThere t' path = true → isThere t path = true ∨ ∀ dir', ¬ Holds t dir' name) :
    BackupRoot t' where
  parents p n hp hn := by
    by_cases heq : p = path
    · rw [heq] at hn ⊢
      rcases hedit.parent (by rw [isThere, hn]; rfl) with hnil | hdir
      · exact .inl hnil
      · right
        rw [hedit.others _ fun hsame => ?_]
        · exact hdir
        · have hlength := congrArg List.length hsame
          rw [List.length_dropLast] at hlength
          have := List.length_pos_iff.2 hpath
          omega
    · rw [hedit.others p heq] at hn
      by_cases hparent : p.dropLast = path
      · rcases hedit.childless with hdir | hchild
        · right
          rw [hparent]
          exact hdir
        · exact absurd hparent (hchild p n hp hn)
      · rw [hedit.others _ hparent]
        exact h.parents p n hp hn
  unique name dir dir' hvalid hdir hdir' := by
    have hold {dir : List String} (hholds : Holds t' dir name) :
        Holds t dir name ∨ dir ++ [name] = path ∧ ∀ dir', ¬ Holds t dir' name := by
      by_cases heq : dir ++ [name] = path
      · rcases hnew dir name hvalid heq.symm (heq ▸ hholds.2) with hthere | hnone
        · exact .inl ⟨hholds.1, heq ▸ hthere⟩
        · exact .inr ⟨heq, hnone⟩
      · left
        refine ⟨hholds.1, ?_⟩
        rw [isThere, ← hedit.others _ heq]
        exact hholds.2
    rcases hold hdir with holds | ⟨hpath, hnone⟩
    · rcases hold hdir' with holds' | ⟨-, hnone⟩
      · exact h.unique name dir dir' hvalid holds holds'
      · exact absurd holds (hnone dir)
    · rcases hold hdir' with holds' | ⟨hpath', -⟩
      · exact absurd holds' (hnone dir')
      · exact (List.append_inj' (hpath.trans hpath'.symm) rfl).1

/-- A folder of archives that `MkdirAll` makes: that of the server, or that of a world. -/
def MadeFolder (dir : List String) : Prop := dir = ["server"] ∨ ∃ world, dir = ["worlds", world]

theorem MadeFolder.folder (h : MadeFolder dir) : Folder dir :=
  h.elim .inl fun hworld => .inr (.inl hworld)

theorem MadeFolder.ne_nil (h : MadeFolder dir) : dir ≠ [] := by
  rcases h with rfl | ⟨world, rfl⟩ <;> simp

/-- No folder of archives is itself where an archive is looked for. -/
theorem MadeFolder.not_archive (h : MadeFolder dir) (hfolder : Folder dir')
    (hvalid : validateFilename name = none) : ¬ dir' ++ [name] <+: dir := by
  obtain ⟨hserver, hworlds, -⟩ := ne_of_valid hvalid
  rcases h with rfl | ⟨world, rfl⟩ <;> rcases hfolder with rfl | ⟨world', rfl⟩ | rfl <;>
    simp [hserver, hworlds]

/-- Making a folder of archives moves no name. -/
theorem BackupRoot.mkdirAll (h : BackupRoot t) (hdir : MadeFolder dir)
    (hmade : Tree.mkdirAll dir t = .ok t') :
    BackupRoot t' ∧ t'.lookup dir = some .dir ∧
      ∀ q n, t.lookup q = some n → t'.lookup q = some n := by
  obtain ⟨hfree, hlookup⟩ := Tree.mkdirAll_eq_ok hmade
  have hkeeps (q : List String) (n : Node) (hn : t.lookup q = some n) : t'.lookup q = some n := by
    rw [hlookup]
    split
    · next hpre =>
      rcases hfree q hpre.1 hpre.2 with hnone | hsome
      · cases hnone.symm.trans hn
      · exact hsome.symm.trans hn
    · exact hn
  refine ⟨⟨fun p n hp hn => ?_, fun name d d' hvalid hd hd' => ?_⟩, ?_, hkeeps⟩
  · by_cases hpre : p <+: dir
    · by_cases hnil : p.dropLast = []
      · exact .inl hnil
      · right
        rw [hlookup, if_pos ⟨hnil, (List.dropLast_prefix p).trans hpre⟩]
    · rw [hlookup, if_neg fun hboth => hpre hboth.2] at hn
      exact (h.parents p n hp hn).imp_right (hkeeps _ _)
  · have hold {d : List String} (hholds : Holds t' d name) : Holds t d name := by
      have hthere := hholds.2
      rw [isThere, hlookup, if_neg fun hboth => hdir.not_archive hholds.1 hvalid hboth.2]
        at hthere
      exact ⟨hholds.1, hthere⟩
    exact h.unique name d d' hvalid (hold hd) (hold hd')
  · rw [hlookup, if_pos ⟨hdir.ne_nil, List.prefix_refl dir⟩]

/-! ## Creating -/

theorem reserveBackupFile_eq_ok {draws : List (Fin 100000 × Stamp)}
    (h : reserveBackupFile dir t draws = .ok (name, t')) :
    validateFilename name = none ∧ backupNameTaken t name = false ∧
      isThere t (dir ++ [name]) = false ∧ (dir = [] ∨ t.lookup dir = some .dir) ∧
        t' = t.insert (dir ++ [name]) (.file []) := by
  induction draws with
  | nil => cases h
  | cons draw draws ih =>
    unfold reserveBackupFile at h
    dsimp only at h
    split at h
    · exact ih h
    · next htaken =>
      split at h
      · exact ih h
      · next hthere =>
        split at h
        · next hparent =>
          obtain ⟨rfl, rfl⟩ := Prod.mk.inj (Except.ok.inj h)
          exact ⟨validateFilename_newBackupName draw, Bool.eq_false_iff.2 htaken,
            Bool.eq_false_iff.2 hthere, hparent, rfl⟩
        · cases h

/-- What the making of an archive does: its folder is made, the archive is written under a name
that no folder holds, and then the metadata of the folder. An archive that is answered has the
bytes that were written. -/
structure Creates (dir : List String) (kind world : String) (t : Tree)
    (made : Option MadeBackup) (t' : Tree) : Prop where
  root : BackupRoot t'
  keeps : ∀ q n, t.lookup q = some n → q ≠ dir ++ ["meta.json"] → t'.lookup q = some n
  made : ∀ b, made = some b → b.kind = kind ∧ b.world = world ∧
    validateFilename b.filename = none ∧ (∀ dir', ¬ Holds t dir' b.filename) ∧
      ∃ data, t'.lookup (dir ++ [b.filename]) = some (.file data)

theorem BackupRoot.creates (h : BackupRoot t) (hdir : MadeFolder dir) (kind world : String)
    (draws : Fin 10 → Fin 100000 × Stamp) (result : BackupEnd) :
    Creates dir kind world t (createBackupIn dir kind world draws result t).1
      (createBackupIn dir kind world draws result t).2 := by
  unfold createBackupIn
  split
  · exact ⟨h, fun _ _ hn _ => hn, by simp⟩
  · next t₁ hmade =>
    obtain ⟨hroot, hthere, hkeeps⟩ := h.mkdirAll hdir hmade
    split
    · exact ⟨hroot, fun q n hn _ => hkeeps q n hn, by simp⟩
    · next name t₂ hreserved =>
      obtain ⟨hvalid, htaken, hfree, hparent, rfl⟩ := reserveBackupFile_eq_ok hreserved
      have hnone (dir' : List String) : ¬ Holds t₁ dir' name :=
        not_holds_of_not_taken hroot htaken
      have habsent : t₁.lookup (dir ++ [name]) = none := by
        rwa [isThere, Option.isSome_eq_false_iff, Option.isNone_iff_eq_none] at hfree
      -- The archive is the only path that is new, and its name is held nowhere.
      have hbring {t₂ : Tree} (hedit : Edit (dir ++ [name]) t₁ t₂) :
          BackupRoot t₂ ∧ ∀ q n, t.lookup q = some n → t₂.lookup q = some n := by
        refine ⟨hroot.edit (by simp) hedit fun dir' name' _ heq _ => .inr ?_, fun q n hn => ?_⟩
        · obtain ⟨-, hname⟩ := List.append_inj' heq rfl
          rwa [← (List.cons.inj hname).1]
        · rw [hedit.others]
          · exact hkeeps q n hn
          · rintro rfl
            cases habsent.symm.trans (hkeeps _ n hn)
      have hwrite (data : List UInt8) :=
        hbring (hroot.edit_insert data (by rw [habsent]; exact nofun) hparent)
      split
      · next data info =>
        rw [AList.insert_insert]
        obtain ⟨hroot₂, hkeeps₂⟩ := hwrite data
        have hparent₂ : dir = [] ∨
            (t₁.insert (dir ++ [name]) (.file data)).lookup dir = some .dir := by
          right
          rw [AList.lookup_insert_ne (by simp)]
          exact hthere
        have hmeta := hroot₂.edit_writeMeta info hparent₂
        refine ⟨hroot₂.edit (by simp) hmeta fun dir' name' hvalid' heq _ => ?_,
          fun q n hn hq => (hmeta.others q hq).trans (hkeeps₂ q n hn), fun b hb => ?_⟩
        · obtain ⟨-, hname⟩ := List.append_inj' heq rfl
          exact absurd (List.cons.inj hname).1.symm (ne_of_valid hvalid').2.2
        · obtain rfl := Option.some.inj hb
          refine ⟨rfl, rfl, hvalid, fun dir' hholds => ?_, data, ?_⟩
          · obtain ⟨n, hn⟩ := Option.isSome_iff_exists.1 hholds.2
            refine hnone dir' ⟨hholds.1, ?_⟩
            rw [isThere, hkeeps _ n hn]
            rfl
          · rw [hmeta.others _ fun heq => ?_, AList.lookup_insert]
            obtain ⟨-, hname⟩ := List.append_inj' heq rfl
            exact (ne_of_valid hvalid).2.2 (List.cons.inj hname).1
      · obtain ⟨hroot₂, hkeeps₂⟩ := hwrite []
        have hedit : Edit (dir ++ [name]) t₁
            ((t₁.insert (dir ++ [name]) (.file [])).erase (dir ++ [name])) := by
          refine ⟨fun q hq => ?_, .inr (hroot.childless (by simp) ?_), fun hthere => ?_⟩
          · rw [AList.lookup_erase_ne hq, AList.lookup_insert_ne hq]
          · rw [habsent]
            exact nofun
          · rw [isThere, AList.lookup_erase] at hthere
            cases hthere
        exact ⟨(hbring hedit).1, fun q n hn _ => (hbring hedit).2 q n hn, by simp⟩
      · next data =>
        rw [AList.insert_insert]
        obtain ⟨hroot₂, hkeeps₂⟩ := hwrite data
        exact ⟨hroot₂, fun q n hn _ => hkeeps₂ q n hn, by simp⟩

/-! ## Deleting -/

/-- What the removing of an archive does: the archive goes, and nothing else but the metadata of
its folder changes. -/
structure Deletes (found : FoundBackup) (t t' : Tree) : Prop where
  root : BackupRoot t'
  others : ∀ q, q ≠ found.filePath → q ≠ found.metaDir ++ ["meta.json"] →
    t'.lookup q = t.lookup q
  gone : ∀ data, t.lookup found.filePath = some (.file data) →
    t'.lookup found.filePath = none

theorem lookup_remove_file {path : List String} {data : List UInt8}
    (h : t.lookup path = some (.file data)) : (remove t path).lookup path = none := by
  have herase : remove t path = t.erase path := by
    rw [remove, h]
  rw [herase, AList.lookup_erase]

theorem isThere_of_remove {path : List String} (h : isThere (remove t path) path = true) :
    isThere t path = true := by
  unfold remove at h
  split at h
  · exact h
  · next hlookup => rw [isThere, hlookup, Option.isSome_some]
  · next hlookup => rw [isThere, hlookup, Option.isSome_some]

theorem BackupRoot.deletes (h : BackupRoot t) (hvalid : validateFilename name = none)
    {found : FoundBackup} (hfound : findBackupFile t name = some found)
    (info : Option (List UInt8)) : Deletes found t (deleteBackup name info t) := by
  obtain ⟨dir, hholds, rfl⟩ := holds_of_findBackupFile hfound
  obtain ⟨hpath, hmeta⟩ := foundIn_path hholds.1 name
  have hdelete : deleteBackup name info t =
      remove (writeMeta dir info t) (dir ++ [name]) := by
    unfold deleteBackup
    rw [hvalid, hfound, if_neg (by simp)]
    dsimp only
    rw [hpath, hmeta]
  have hparent : dir = [] ∨ t.lookup dir = some .dir := by
    obtain ⟨n, hn⟩ := Option.isSome_iff_exists.1 hholds.2
    have hup := h.parents _ n (by simp) hn
    rwa [List.dropLast_concat] at hup
  have hinfo := h.edit_writeMeta info hparent
  have hroot : BackupRoot (writeMeta dir info t) := by
    apply h.edit (by simp) hinfo
    intro dir' name' hvalid' heq _
    obtain ⟨-, hname⟩ := List.append_inj' heq rfl
    exact absurd (List.cons.inj hname).1.symm (ne_of_valid hvalid').2.2
  have hremove : Edit (dir ++ [name]) (writeMeta dir info t) (deleteBackup name info t) := by
    rw [hdelete]
    exact hroot.edit_remove (by simp)
  refine ⟨hroot.edit (by simp) hremove fun dir' name' _ _ hthere => .inl ?_,
    fun q hq hq' => ?_, fun data hfile => ?_⟩
  · rw [hdelete] at hthere
    exact isThere_of_remove hthere
  · rw [hpath] at hq
    rw [hmeta] at hq'
    rw [hremove.others q hq, hinfo.others q hq']
  · rw [hpath] at hfile ⊢
    rw [hdelete]
    apply @lookup_remove_file _ _ data
    rw [hinfo.others _ fun heq => ?_, hfile]
    obtain ⟨-, hname⟩ := List.append_inj' heq rfl
    exact (ne_of_valid hvalid).2.2 (List.cons.inj hname).1

/-! ## Worlds -/

/-- The last name of a path is ".", "/" or a text without a slash. -/
theorem base_cases (s : String) :
    Path.base s = "." ∨ Path.base s = "/" ∨
      Path.base s ≠ "" ∧ '/' ∉ (Path.base s).toList := by
  unfold Path.base
  split
  · exact .inl rfl
  · cases hfound : (Path.parts s).reverse.find? (· ≠ "") with
    | none => exact .inr (.inl rfl)
    | some p =>
      have hne := List.find?_some hfound
      refine .inr (.inr ⟨of_decide_eq_true hne, ?_⟩)
      exact Path.not_mem_of_mem_parts (List.mem_reverse.1 (List.mem_of_find?_eq_some hfound))

/-- A world that is its own last name has a folder for its archives, unless it is called ".", ".."
or "/". -/
theorem worldBackupDir_eq {world : String} (hbase : ∃ root, Path.base root = world)
    (hnamed : world ∉ [".", "..", "/"]) : worldBackupDir world = ["worlds", world] := by
  obtain ⟨root, rfl⟩ := hbase
  have hother : Path.base root ≠ "." ∧ Path.base root ≠ ".." ∧ Path.base root ≠ "/" := by
    simpa using hnamed
  rcases base_cases root with hdot | hslash | ⟨hne, hslash⟩
  · exact absurd hdot hother.1
  · exact absurd hslash hother.2.2
  · rw [worldBackupDir, joinClean, split, splitChars_of_not_mem hslash, List.map_singleton,
      String.ofList_toList, List.foldl_cons, List.foldl_nil, cleanStep, if_neg, if_neg hother.2.1]
    · rfl
    · exact not_or_intro hne hother.1

/-- A world backup is made of no world called ".", ".." or "/". -/
def BackupCall.Named : BackupCall → Prop
  | .createWorldBackup _ _ worldName _ _ => worldName ∉ [".", "..", "/"]
  | _ => True

/-- The call that deletes a name. -/
def BackupCall.IsDelete (name : String) : BackupCall → Prop
  | .deleteBackup filename _ => filename = name
  | _ => False

/-! ## Calls -/

/-- What a call does: an archive that it answers is in a folder that tells its kind and its world,
under a name that no folder held, and every archive but the one it deletes stays as it is. -/
structure CallEffect (a : BackupCall) (t : Tree) (answer : Option MadeBackup) (t' : Tree) : Prop where
  root : BackupRoot t'
  made : ∀ b, answer = some b → ∃ dir data, Folder dir ∧ validateFilename b.filename = none ∧
    foundIn dir b.filename = ⟨dir ++ [b.filename], dir, b.kind, b.world⟩ ∧
      (∀ dir', ¬ Holds t dir' b.filename) ∧ t'.lookup (dir ++ [b.filename]) = some (.file data)
  keeps : ∀ dir name n, validateFilename name = none → Folder dir → ¬ a.IsDelete name →
    t.lookup (dir ++ [name]) = some n → t'.lookup (dir ++ [name]) = some n

theorem Creates.effect {kind world : String} {made : Option MadeBackup} {a : BackupCall}
    (h : Creates dir kind world t made t') (hdir : MadeFolder dir)
    (hfound : ∀ name, foundIn dir name = ⟨dir ++ [name], dir, kind, world⟩) :
    CallEffect a t made t' where
  root := h.root
  made b hb := by
    obtain ⟨rfl, rfl, hvalid, hnone, data, hdata⟩ := h.made b hb
    exact ⟨dir, data, hdir.folder, hvalid, hfound b.filename, hnone, hdata⟩
  keeps d name n hvalid _ _ hn := by
    apply h.keeps _ n hn
    intro heq
    obtain ⟨-, hname⟩ := List.append_inj' heq rfl
    exact (ne_of_valid hvalid).2.2 (List.cons.inj hname).1

theorem BackupRoot.refuses (h : BackupRoot t) (a : BackupCall) : CallEffect a t none t :=
  ⟨h, nofun, fun _ _ _ _ _ _ hn => hn⟩

theorem BackupRoot.act (h : BackupRoot t) {a : BackupCall} (hnamed : a.Named) :
    CallEffect a t (a.act t).1 (a.act t).2 := by
  cases a with
  | createBackup draws result =>
    exact (h.creates (.inl rfl) "server" "" draws result).effect (.inl rfl) fun _ => rfl
  | createWorldBackup workingDir isDir worldName draws result =>
    unfold BackupCall.act
    dsimp only
    split
    · exact h.refuses _
    · next root _ _ =>
      split
      · exact h.refuses _
      · next hbase =>
        have hdir := worldBackupDir_eq ⟨root, not_not.1 hbase⟩ hnamed
        rw [hdir]
        exact (h.creates (.inr ⟨worldName, rfl⟩) "world" worldName draws result).effect
          (.inr ⟨worldName, rfl⟩) fun _ => rfl
  | deleteBackup filename info =>
    unfold BackupCall.act
    dsimp only
    cases hvalid : validateFilename filename with
    | some e =>
      rw [Konnekt.Backup.deleteBackup, hvalid, if_pos Option.isSome_some]
      exact h.refuses _
    | none =>
      cases hfound : findBackupFile t filename with
      | none =>
        rw [Konnekt.Backup.deleteBackup, hvalid, hfound, if_neg (by simp)]
        exact h.refuses _
      | some found =>
        have hdeletes := h.deletes hvalid hfound info
        obtain ⟨dir, hholds, rfl⟩ := holds_of_findBackupFile hfound
        obtain ⟨hpath, hmeta⟩ := foundIn_path hholds.1 filename
        refine ⟨hdeletes.root, nofun, fun dir' name n hname _ hother hn => ?_⟩
        rw [hdeletes.others]
        · exact hn
        · rw [hpath]
          intro heq
          obtain ⟨-, hsame⟩ := List.append_inj' heq rfl
          exact hother (List.cons.inj hsame).1.symm
        · rw [hmeta]
          intro heq
          obtain ⟨-, hsame⟩ := List.append_inj' heq rfl
          exact (ne_of_valid hname).2.2 (List.cons.inj hsame).1

/-! ## Runs -/

/-- In every run, a name is in one folder at most, and an archive that was made and not deleted is
what its name finds: the file with the bytes it was made with, in a folder that tells its kind and
its world. Deleting the name removes this file, and changes nothing else but the metadata of its
folder. -/
theorem backups_of_run {t₀ : Tree} {h : Labelled.History Tree BackupCall} (hroot : BackupRoot t₀)
    (hrun : Labelled.Run backupCalls (fun _ _ a => a.Named) t₀ h t) :
    BackupRoot t ∧
      ∀ newer e older b, h = newer ++ e :: older → backupCalls.answer e = some b →
        (∀ d ∈ newer, ¬ d.2.IsDelete b.filename) →
        ∃ dir data, e.1.lookup (dir ++ [b.filename]) = none ∧
          (backupCalls.act e.2 e.1).2.lookup (dir ++ [b.filename]) = some (.file data) ∧
          t.lookup (dir ++ [b.filename]) = some (.file data) ∧
          findBackupFile t b.filename = some ⟨dir ++ [b.filename], dir, b.kind, b.world⟩ ∧
          ∀ info, (deleteBackup b.filename info t).lookup (dir ++ [b.filename]) = none ∧
            ∀ q, q ≠ dir ++ [b.filename] → q ≠ dir ++ ["meta.json"] →
              (deleteBackup b.filename info t).lookup q = t.lookup q := by
  have hinv {h' : Labelled.History Tree BackupCall} {s : Tree}
      (hrun' : Labelled.Run backupCalls (fun _ _ a => a.Named) t₀ h' s) : BackupRoot s :=
    hrun'.invariant (P := fun _ s => BackupRoot s) hroot
      fun _ _ _ _ hbackups _ hnamed => (hbackups.act hnamed).root
  refine ⟨hinv hrun, ?_⟩
  rintro newer e older b rfl hanswer hkept
  obtain ⟨hbefore, -, hnamed⟩ := hrun.before
  have hacts := (hinv hbefore).act hnamed
  obtain ⟨dir, data, hfolder, hvalid, hfound, hnone, hmade⟩ := hacts.made b hanswer
  have habsent : e.1.lookup (dir ++ [b.filename]) = none := by
    by_contra hne
    exact hnone dir ⟨hfolder, Option.isSome_iff_ne_none.2 hne⟩
  have hthere : (∀ d ∈ newer, ¬ d.2.IsDelete b.filename) →
      t.lookup (dir ++ [b.filename]) = some (.file data) := by
    apply hrun.since (P := fun newer s => (∀ d ∈ newer, ¬ d.2.IsDelete b.filename) →
      s.lookup (dir ++ [b.filename]) = some (.file data))
    · exact fun _ => hmade
    · intro newer s a hrun' ih _ hnamed' hkept'
      obtain ⟨hlast, hearlier⟩ := List.forall_mem_cons.1 hkept'
      exact ((hinv hrun').act hnamed').keeps dir b.filename _ hvalid hfolder hlast (ih hearlier)
  have hfile := hthere hkept
  have hholds : Holds t dir b.filename := ⟨hfolder, by rw [isThere, hfile]; rfl⟩
  have hfinds := findBackupFile_of_holds (hinv hrun) hvalid hholds
  rw [hfound] at hfinds
  refine ⟨dir, data, habsent, hmade, hfile, hfinds, fun info => ?_⟩
  have hdeletes := (hinv hrun).deletes hvalid hfinds info
  exact ⟨hdeletes.gone data hfile, hdeletes.others⟩

instance (a : BackupCall) : Decidable a.Named :=
  match a with
  | .createBackup _ _ => .isTrue trivial
  | .createWorldBackup _ _ worldName _ _ =>
    inferInstanceAs (Decidable (worldName ∉ [".", "..", "/"]))
  | .deleteBackup _ _ => .isTrue trivial

instance (a : BackupCall) (t : Tree) : Decidable (backupCalls.enabled a t) := .isTrue trivial

/-- The names that are drawn on the first day of a century. -/
def firstDraws (i : Fin 10) : Fin 100000 × Stamp := (i.castLE (by decide), ⟨1, 1, 0, 0, 0, 0⟩)

theorem backupRoot_empty : BackupRoot ∅ where
  parents _ _ _ hn := by cases hn
  unique _ _ _ _ hholds _ := by cases hholds.2

/-- A backup of the server, then one of a world that draws the same name first. -/
def twoBackups : List BackupCall :=
  [.createWorldBackup "/srv" (fun path => path == "/srv/world") "world" firstDraws
      (.completes [2] none),
    .createBackup firstDraws (.completes [1] none)]

theorem backups_of_run_two :
    BackupRoot (backupCalls.play ∅ twoBackups).2 :=
  (backups_of_run backupRoot_empty (Labelled.System.Playable.run (by decide +kernel))).1

example : findBackupFile (backupCalls.play ∅ twoBackups).2 "00001_01_01_00_000000.zip" =
    some ⟨["worlds", "world", "00001_01_01_00_000000.zip"], ["worlds", "world"], "world",
      "world"⟩ := by
  decide +kernel

/-- A backup of the world "." of a server that has no working directory. -/
def dotBackup : BackupCall :=
  .createWorldBackup "" (fun path => path == ".") "." firstDraws (.completes [1] none)

/-- The archive of the world "." is made next to the folders of the worlds, where no name finds
it. -/
theorem not_backups_of_run : ¬ ∀ t₀ h t, BackupRoot t₀ →
    Labelled.Run backupCalls (fun _ _ _ => True) t₀ h t → ∀ e b, h = [e] →
      backupCalls.answer e = some b → (findBackupFile t b.filename).isSome := by
  intro hfinds
  have hrun : Labelled.Run backupCalls (fun _ _ _ => True) ∅ (backupCalls.play ∅ [dotBackup]).1
      (backupCalls.play ∅ [dotBackup]).2 := Labelled.System.Playable.run (by decide +kernel)
  have hmade : backupCalls.answer ((∅ : Tree), dotBackup) =
      some ⟨"00000_01_01_00_000000.zip", "world", "."⟩ := by
    decide +kernel
  have hfound := hfinds ∅ _ _ backupRoot_empty hrun (∅, dotBackup) _ rfl hmade
  exact absurd hfound (by decide +kernel)

end Konnekt.Backup
