import Konnekt.Correctness.Unzip

/-!
# The layout of an archive

The preview of a backup reads the layout of a world off the names of the entries,
its restore off what has been extracted. The two see the same signals as long as
the names are spelled as they lead.
-/

namespace Konnekt.Backup.ZipFile

open Go

variable {cwd : List String} {destDir : String} {t : Tree} {x x' : Extraction}
  {f : ZipFile} {files more : List ZipFile}

/-! ## What has been extracted -/

/-- Extracting the entry makes a directory of the path. -/
def Opens (cwd : List String) (destDir : String) (q : List String) (f : ZipFile) : Prop :=
  q <+: f.target cwd destDir ∧ (q ≠ f.target cwd destDir ∨ f.isDir = true)

/-- Inside the directory there is what the entries lead to. -/
structure Made (cwd : List String) (destDir : String) (t : Tree) (files : List ZipFile) :
    Prop where
  dir : ∀ q, StrictlyInside cwd destDir q →
    (t.lookup q = some .dir ↔ ∃ f ∈ files, f.Opens cwd destDir q)
  node : ∀ q, StrictlyInside cwd destDir q →
    (t.lookup q ≠ none ↔ ∃ f ∈ files, q <+: f.target cwd destDir)

theorem exists_mem_concat {p : ZipFile → Prop} :
    (∃ g ∈ files ++ [f], p g) ↔ (∃ g ∈ files, p g) ∨ p f := by
  simp only [List.mem_append, List.mem_singleton]
  constructor
  · rintro ⟨g, hg | rfl, hp⟩
    · exact .inl ⟨g, hg, hp⟩
    · exact .inr hp
  · rintro (⟨g, hg, hp⟩ | hp)
    · exact ⟨g, .inl hg, hp⟩
    · exact ⟨f, .inr rfl, hp⟩

/-- A proper prefix of a path leads to its directory. -/
theorem prefix_dropLast_iff {q path : List String} (hne : path ≠ []) :
    q <+: path.dropLast ↔ q <+: path ∧ q ≠ path := by
  constructor
  · intro h
    refine ⟨h.trans (List.dropLast_prefix path), ?_⟩
    rintro rfl
    have hle := h.length_le
    have hpos := List.length_pos_iff.2 hne
    rw [List.length_dropLast] at hle
    omega
  · rintro ⟨⟨rest, rfl⟩, hproper⟩
    have hrest : rest ≠ [] := by
      rintro rfl
      exact hproper (List.append_nil q).symm
    rw [List.dropLast_append_of_ne_nil hrest]
    exact List.prefix_append _ _

theorem StrictlyInside.ne_nil {q : List String} (h : StrictlyInside cwd destDir q) : q ≠ [] := by
  rintro rfl
  exact h.2 (List.prefix_nil.1 h.1).symm

/-- A directory entry adds its path. -/
theorem Made.directory (hmade : Made cwd destDir t files) (hdir : f.isDir = true) {t' : Tree}
    (h : t.mkdirAll (f.target cwd destDir) = .ok t') : Made cwd destDir t' (files ++ [f]) := by
  have hlookup := (Tree.mkdirAll_eq_ok h).2
  constructor
  · intro q hq
    have hopens : f.Opens cwd destDir q ↔ q <+: f.target cwd destDir := by simp [Opens, hdir]
    rw [exists_mem_concat, hopens, ← hmade.dir q hq, hlookup]
    by_cases hpre : q <+: f.target cwd destDir
    · simp [hq.ne_nil, hpre]
    · simp [hpre]
  · intro q hq
    rw [exists_mem_concat, ← hmade.node q hq, hlookup]
    by_cases hpre : q <+: f.target cwd destDir
    · simp [hq.ne_nil, hpre]
    · simp [hpre]

/-- A file adds its path, in a directory that is made for it. -/
theorem Made.file (hmade : Made cwd destDir t files) (hdir : f.isDir = false) {t' : Tree}
    (hinside : StrictlyInside cwd destDir (f.target cwd destDir))
    (h : t.mkdirAll (f.target cwd destDir).dropLast = .ok t')
    (hfree : t'.lookup (f.target cwd destDir) ≠ some .dir) (data data' : List UInt8) :
    Made cwd destDir ((t'.insert (f.target cwd destDir) (.file data)).insert
      (f.target cwd destDir) (.file data')) (files ++ [f]) := by
  have hlookup := (Tree.mkdirAll_eq_ok h).2
  have hself : ¬ f.target cwd destDir <+: (f.target cwd destDir).dropLast := by
    rw [prefix_dropLast_iff hinside.ne_nil]
    exact fun h => h.2 rfl
  constructor
  · intro q hq
    rw [exists_mem_concat, ← hmade.dir q hq]
    by_cases heq : q = f.target cwd destDir
    · have hbefore : t.lookup q ≠ some .dir := by
        rw [hlookup, if_neg (fun h => hself h.2)] at hfree
        rwa [heq]
      have hnot : ¬ f.Opens cwd destDir q := by simp [Opens, heq, hdir]
      rw [heq, AList.lookup_insert, ← heq]
      simp [hbefore, hnot]
    · have hopens : f.Opens cwd destDir q ↔ q <+: (f.target cwd destDir).dropLast := by
        rw [prefix_dropLast_iff hinside.ne_nil]
        simp [Opens, heq]
      rw [AList.lookup_insert_ne heq, AList.lookup_insert_ne heq, hlookup, hopens]
      by_cases hpre : q <+: (f.target cwd destDir).dropLast
      · simp [hq.ne_nil, hpre]
      · simp [hpre]
  · intro q hq
    rw [exists_mem_concat, ← hmade.node q hq]
    by_cases heq : q = f.target cwd destDir
    · rw [heq, AList.lookup_insert]
      simp
    · have hpre : q <+: f.target cwd destDir ↔ q <+: (f.target cwd destDir).dropLast := by
        rw [prefix_dropLast_iff hinside.ne_nil]
        simp [heq]
      rw [AList.lookup_insert_ne heq, AList.lookup_insert_ne heq, hlookup, hpre]
      by_cases hpre' : q <+: (f.target cwd destDir).dropLast
      · simp [hq.ne_nil, hpre']
      · simp [hpre']

theorem Extracts.made (hdest : IsDirectory cwd destDir x.tree)
    (hmade : Made cwd destDir x.tree files) (h : Extracts cwd destDir x f (none, x')) :
    f.Legal destDir ∧ Made cwd destDir x'.tree (files ++ [f]) := by
  generalize hr : (none, x') = r at h
  cases h with
  | directory hlegal hdir hmk =>
    obtain rfl := (Prod.mk.inj hr).2
    exact ⟨hlegal, hmade.directory hdir hmk⟩
  | copied hlegal hdir hmk hfree =>
    obtain rfl := (Prod.mk.inj hr).2
    have hsame := sameOutside_mkdirAll hdest (List.dropLast_prefix _) hmk
    have hinside := strictlyInside_of_free (isDirectory_of_same hdest hsame) hfree
    exact ⟨hlegal, hmade.file hdir hinside hmk hfree _ _⟩
  | _ => cases (Prod.mk.inj hr).1

theorem made_extractAll (hdest : IsDirectory cwd destDir x.tree)
    (hmade : Made cwd destDir x.tree files) (h : extractAll cwd destDir more x = (none, x')) :
    (∀ f ∈ more, f.Legal destDir) ∧ Made cwd destDir x'.tree (files ++ more) := by
  induction more generalizing x files with
  | nil =>
    obtain rfl := (Prod.mk.inj h).2
    rw [List.append_nil]
    exact ⟨by simp, hmade⟩
  | cons f more ih =>
    have hextracts := @extract_extracts cwd destDir hdest.named x f
    rw [extractAll] at h
    split at h
    · cases (Prod.mk.inj h).1
    · next x₁ heq =>
      rw [heq] at hextracts
      obtain ⟨hlegal, hmade₁⟩ := hextracts.made hdest hmade
      have hsame := hextracts.sameOutside hdest
      obtain ⟨hlegals, hall⟩ := ih (isDirectory_of_same hdest hsame) hmade₁ h
      rw [List.append_assoc] at hall
      exact ⟨List.forall_mem_cons.2 ⟨hlegal, hlegals⟩, hall⟩

/-! ## The two readings -/

theorem namedRoot_eq_true {pre : String} (named : Bool) : namedRoot pre named files = true ↔
    (∀ f ∈ files, f.name ≠ "level.dat") ∧
      (named = true ∨ ∃ f ∈ files, pre.toList <+: f.name.toList) := by
  induction files generalizing named with
  | nil => simp [namedRoot]
  | cons f files ih =>
    rw [namedRoot]
    by_cases hlevel : f.name = "level.dat"
    · simp [hlevel]
    · rw [if_neg hlevel, ih]
      by_cases hpre : pre.toList <+: f.name.toList
      · simp [hlevel, hpre]
      · simp [hlevel, hpre]

/-- The folder of the world is there from the start, or an entry makes it. -/
def HasFolder (cwd : List String) (tmp : String) (t : Tree) (files : List ZipFile)
    (path : List String) : Prop :=
  path = [] ∨ t.lookup path = some .dir ∨ ∃ f ∈ files, f.Opens cwd tmp path

/-- The names of the entries say what they lead to: one is exactly `level.dat`, or they begin
with the folder of the world exactly when that is made and nothing leads to `level.dat`. -/
def SpelledAsLed (cwd : List String) (tmp : String) (t : Tree) (files : List ZipFile)
    (worldName : String) : Prop :=
  (∃ f ∈ files, f.name = "level.dat") ∨
    ((∃ f ∈ files, (worldName ++ "/").toList <+: f.name.toList) ↔
      (∀ f ∈ files, ¬ Path.resolve cwd tmp ++ ["level.dat"] <+: f.target cwd tmp) ∧
        HasFolder cwd tmp t files (Path.resolve cwd (Path.join [tmp, worldName])))

theorem strictlyInside_append {q : List String} (hq : q ≠ []) :
    StrictlyInside cwd destDir (Path.resolve cwd destDir ++ q) := by
  refine ⟨List.prefix_append _ _, fun heq => hq ?_⟩
  simpa using heq

theorem plain_levelDat : Path.Plain "level.dat" := by decide

/-- Where an entry called `level.dat` is extracted to. -/
theorem target_levelDat (hdest : Path.Named destDir) (hname : f.name = "level.dat") :
    f.target cwd destDir = Path.resolve cwd destDir ++ ["level.dat"] := by
  obtain ⟨hresolve, hnames⟩ := Path.resolve_join_plain hdest.ne_empty plain_levelDat cwd
  have hlegal := (Path.hasPrefix_join hdest "level.dat").2 (hnames ▸ List.prefix_append _ _)
  have hbelow := (Path.resolve_join hdest hlegal).2.2 cwd
  rw [target, hname, ← hbelow, hresolve]

section

variable {tmp worldName : String}

/-- What the restore finds at the path of the world once the archive is extracted. -/
theorem stat_eq_dir (hdest : IsDirectory cwd tmp t)
    (hempty : ∀ q, StrictlyInside cwd tmp q → t.lookup q = none) {t' : Tree}
    (hsame : SameOutside cwd tmp t t') (hmade : Made cwd tmp t' files) (path : String) :
    stat cwd t' path = some .dir ↔ HasFolder cwd tmp t files (Path.resolve cwd path) := by
  unfold stat HasFolder
  by_cases hroot : Path.resolve cwd path = []
  · simp [hroot]
  rw [if_neg hroot, or_iff_right hroot]
  by_cases hinside : StrictlyInside cwd tmp (Path.resolve cwd path)
  · rw [hempty _ hinside, hmade.dir _ hinside]
    simp
  · rw [hsame _ hinside]
    constructor
    · exact .inl
    · rintro (hdir | ⟨f, -, hpre, -⟩)
      · exact hdir
      · exact lookup_of_outside hdest (List.prefix_refl _) hinside hroot hpre

/-- The two readings of an archive that is extracted into an empty directory agree exactly when
its names are spelled as they lead. -/
theorem layout_eq_iff (hdest : IsDirectory cwd tmp t)
    (hempty : ∀ q, StrictlyInside cwd tmp q → t.lookup q = none)
    (h : unzipTo cwd files tmp t = (none, x)) (worldName : String) :
    worldFilesAreMultiRoot files worldName = stagedLayoutIsMultiRoot cwd x.tree tmp worldName ↔
      SpelledAsLed cwd tmp t files worldName := by
  have hstart : Made cwd tmp t [] := by
    constructor
    · intro q hq
      simp [hempty q hq]
    · intro q hq
      simp [hempty q hq]
  have hall : extractAll cwd tmp files { tree := t } = (none, x) := by
    unfold unzipTo at h
    split at h
    · cases (Prod.mk.inj h).1
    · exact h
  have hmade : Made cwd tmp x.tree files :=
    (made_extractAll (x := { tree := t }) hdest hstart hall).2
  have hsame : SameOutside cwd tmp t x.tree := by
    have houtside := sameOutside_extractAll (x := { tree := t }) hdest files
    rwa [hall] at houtside
  have hinside := @strictlyInside_append cwd tmp ["level.dat"] (List.cons_ne_nil _ _)
  have hlevel := (Path.resolve_join_plain hdest.named.ne_empty plain_levelDat cwd).1
  have hlevelDat : (stat cwd x.tree (Path.join [tmp, "level.dat"])).isSome = true ↔
      ∃ f ∈ files, Path.resolve cwd tmp ++ ["level.dat"] <+: f.target cwd tmp := by
    rw [stat, hlevel, if_neg hinside.ne_nil, ← hmade.node _ hinside, Option.isSome_iff_ne_none]
  have hstaged : stagedLayoutIsMultiRoot cwd x.tree tmp worldName = true ↔
      (∀ f ∈ files, ¬ Path.resolve cwd tmp ++ ["level.dat"] <+: f.target cwd tmp) ∧
        HasFolder cwd tmp t files (Path.resolve cwd (Path.join [tmp, worldName])) := by
    rw [← stat_eq_dir hdest hempty hsame hmade, stagedLayoutIsMultiRoot]
    by_cases hthere : ∃ f ∈ files, Path.resolve cwd tmp ++ ["level.dat"] <+: f.target cwd tmp
    · have hnot : ¬ ∀ f ∈ files, ¬ Path.resolve cwd tmp ++ ["level.dat"] <+: f.target cwd tmp := by
        simpa using hthere
      simp [hlevelDat.2 hthere, hnot]
    · have hnone := fun hsome => hthere (hlevelDat.1 hsome)
      rw [if_neg hnone, beq_iff_eq]
      simp only [not_exists, not_and] at hthere
      exact (and_iff_right hthere).symm
  have hnames := @namedRoot_eq_true files (worldName ++ "/") false
  rw [Bool.eq_iff_iff, hstaged, worldFilesAreMultiRoot, hnames, SpelledAsLed]
  by_cases hexact : ∃ f ∈ files, f.name = "level.dat"
  · obtain ⟨f, hf, hname⟩ := hexact
    have hled : Path.resolve cwd tmp ++ ["level.dat"] <+: f.target cwd tmp := by
      rw [target_levelDat hdest.named hname]
    refine iff_of_true ?_ (.inl ⟨f, hf, hname⟩)
    exact iff_of_false (fun h => h.1 f hf hname) (fun h => h.1 f hf hled)
  · have hnone : ∀ f ∈ files, f.name ≠ "level.dat" := fun f hf hname => hexact ⟨f, hf, hname⟩
    rw [or_iff_right hexact]
    simp only [Bool.false_eq_true, false_or, and_iff_right hnone]

theorem unzipTo_of_fst (h : (unzipTo cwd files tmp t).1 = none) :
    unzipTo cwd files tmp t = (none, (unzipTo cwd files tmp t).2) := by
  generalize unzipTo cwd files tmp t = r at h ⊢
  obtain ⟨fault, x⟩ := r
  rw [show fault = none from h]

end

/-! ## Names that clean to the same path -/

/-- An archive whose `level.dat` is spelled with a dot, beside a folder of the world. -/
def dottedArchive : List ZipFile :=
  [{ name := "./level.dat" }, { name := "world/region/r.0.0.mca" }]

/-- The preview reads a folder for each dimension, the restore the folder of the world itself. -/
theorem not_layout_eq : (unzipTo [] dottedArchive "/srv/restore" restoreDisk).1 = none ∧
    worldFilesAreMultiRoot dottedArchive "world" = true ∧
      stagedLayoutIsMultiRoot [] (unzipTo [] dottedArchive "/srv/restore" restoreDisk).2.tree
        "/srv/restore" "world" = false := by
  decide +kernel

theorem strictlyInside_restoreDisk {q : List String} (h : StrictlyInside [] "/srv/restore" q) :
    restoreDisk.lookup q = none := by
  have hdest : Path.resolve [] "/srv/restore" = ["srv", "restore"] := by decide
  obtain ⟨hbelow, hne⟩ := h
  rw [hdest] at hbelow hne
  obtain ⟨rest, rfl⟩ := hbelow
  have hrest : rest ≠ [] := by
    rintro rfl
    exact hne rfl
  obtain ⟨a, rest, rfl⟩ := List.exists_cons_of_ne_nil hrest
  rw [restoreDisk, AList.lookup_insert_ne (by simp), AList.lookup_insert_ne (by simp)]
  rfl

/-- An archive of a world as the backups write it. -/
theorem layout_eq_iff_written : worldFilesAreMultiRoot [{ name := "world/level.dat" }] "world" =
      stagedLayoutIsMultiRoot []
        (unzipTo [] [{ name := "world/level.dat" }] "/srv/restore" restoreDisk).2.tree
        "/srv/restore" "world" ∧
    SpelledAsLed [] "/srv/restore" restoreDisk [{ name := "world/level.dat" }] "world" := by
  have hextracted : (unzipTo [] [{ name := "world/level.dat" }] "/srv/restore" restoreDisk).1 =
      none := by
    decide +kernel
  have hagree : worldFilesAreMultiRoot [{ name := "world/level.dat" }] "world" =
      stagedLayoutIsMultiRoot []
        (unzipTo [] [{ name := "world/level.dat" }] "/srv/restore" restoreDisk).2.tree
        "/srv/restore" "world" := by
    decide +kernel
  exact ⟨hagree, (layout_eq_iff isDirectory_restoreDisk (fun _ => strictlyInside_restoreDisk)
    (unzipTo_of_fst hextracted) "world").1 hagree⟩

end Konnekt.Backup.ZipFile
