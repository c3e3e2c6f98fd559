import Konnekt.ConfigEditor.Listing

/-!
# What the config editor lists is what it reaches

The files listed are the names the classifier takes in the folders that are
scanned. The gate takes fewer names than the classifier, and a path may lead
through a link the scan passes over, so that the two agree only where the tree
has neither.
-/

namespace Konnekt.ConfigEditor

open Go Path

variable {u : Letters} {t : LinkTree} {d : WorkDir}

/-! ## The directories that are read -/

/-- Reading a directory shows a name. -/
def Shown (t : LinkTree) (dir : List String) (name : String) (k : Kind) : Prop :=
  ∃ entries, readDir t dir = some entries ∧ (name, k) ∈ entries

/-- The directories whose files are listed: the working directory, `config` and `plugins`, and
the folders in these. -/
inductive Scanned (t : LinkTree) : List String → Prop
  | root : Scanned t []
  | config : Scanned t ["config"]
  | plugins : Scanned t ["plugins"]
  | folder {top folder : String} (htop : top ∈ ["config", "plugins"])
      (hfolder : Shown t [top] folder .dir) : Scanned t [top, folder]

theorem readDir_eq_some {dir : List String} {entries : List (String × Kind)} :
    readDir t dir = some entries ↔
      ∃ real, t.walk openLinks dir = .ok real ∧ t.kind real = some .dir ∧
        t.readDir real = entries := by
  unfold readDir
  cases t.walk openLinks dir with
  | error e => simp
  | ok real =>
    by_cases hkind : t.kind real = some .dir
    · simp [hkind]
    · simp [hkind]

theorem shown_iff {dir : List String} {name : String} {k : Kind} :
    Shown t dir name k ↔ ∃ real, t.walk openLinks dir = .ok real ∧ t.kind real = some .dir ∧
      t.kind (real ++ [name]) = some k := by
  unfold Shown
  constructor
  · rintro ⟨entries, hread, hmem⟩
    obtain ⟨real, hwalk, hkind, rfl⟩ := readDir_eq_some.1 hread
    exact ⟨real, hwalk, hkind, LinkTree.mem_readDir.1 hmem⟩
  · rintro ⟨real, hwalk, hkind, hname⟩
    exact ⟨_, readDir_eq_some.2 ⟨real, hwalk, hkind, rfl⟩, LinkTree.mem_readDir.2 hname⟩

theorem Shown.plain {dir : List String} {name : String} {k : Kind} (h : Shown t dir name k) :
    Plain name := by
  obtain ⟨real, -, -, hname⟩ := shown_iff.1 h
  exact t.names _ (LinkTree.kind_append.1 hname) name (by simp)

/-- A name stands for one thing. -/
theorem Shown.kind_eq {dir : List String} {name : String} {k k' : Kind} (h : Shown t dir name k)
    (h' : Shown t dir name k') : k = k' := by
  obtain ⟨real, hwalk, -, hname⟩ := shown_iff.1 h
  obtain ⟨real', hwalk', -, hname'⟩ := shown_iff.1 h'
  rw [hwalk] at hwalk'
  cases hwalk'
  rw [hname] at hname'
  exact Option.some.inj hname'

theorem mem_getD_readDir {dir : List String} {name : String} {k : Kind} :
    (name, k) ∈ (readDir t dir).getD [] ↔ Shown t dir name k := by
  unfold Shown
  cases readDir t dir <;> simp

theorem nodup_getD_readDir (t : LinkTree) (dir : List String) :
    (((readDir t dir).getD []).map Prod.fst).Nodup := by
  cases hread : readDir t dir with
  | none => exact List.nodup_nil
  | some entries =>
    obtain ⟨real, -, -, rfl⟩ := readDir_eq_some.1 hread
    exact t.nodup_readDir real

theorem Scanned.plain {dir : List String} (h : Scanned t dir) : ∀ n ∈ dir, Plain n := by
  cases h with
  | root => simp
  | config => decide
  | plugins => decide
  | @folder top folder htop hfolder =>
    have hplain : Plain top := by
      simp only [List.mem_cons, List.not_mem_nil, or_false] at htop
      obtain rfl | rfl := htop <;> decide
    simpa using ⟨hplain, hfolder.plain⟩

/-! ## What the classifier says of a path -/

/-- The classifier takes the path of these names. -/
def Offered (u : Letters) (ps : List String) : Prop :=
  classifyConfigPath u (joinSlash ps) ≠ none

theorem plain_snoc {dir : List String} {name : String} (hdir : ∀ n ∈ dir, Plain n)
    (hname : Plain name) : ∀ n ∈ dir ++ [name], Plain n := by
  intro n hn
  cases List.mem_append.1 hn with
  | inl hn => exact hdir n hn
  | inr hn => exact List.mem_singleton.1 hn ▸ hname

/-- The names of a path in a directory. -/
theorem parts_snoc {dir : List String} {name : String} (hdir : ∀ n ∈ dir, Plain n)
    (hname : Plain name) : parts (joinSlash (dir ++ [name])) = dir ++ [name] :=
  parts_joinSlash (by simp) fun n hn => (plain_snoc hdir hname n hn).2

theorem category_root {rel name : String} {loc : ConfigLocation} (hrel : parts rel = [name])
    (h : classifyConfigPath u rel = some loc) : loc.category = "server" := by
  simp only [classifyConfigPath, hrel] at h
  split at h
  · cases h
  · split at h
    · cases h
      rfl
    · cases h

theorem category_plugins {rel name : String} {loc : ConfigLocation}
    (hrel : parts rel = ["plugins", name]) (h : classifyConfigPath u rel = some loc) :
    loc.category = "plugins" := by
  simp only [classifyConfigPath, hrel] at h
  split at h
  · cases h
  · cases h
    rfl

theorem category_config {rel name : String} {loc : ConfigLocation}
    (hrel : parts rel = ["config", name]) (h : classifyConfigPath u rel = some loc) :
    loc.category = "server" ∨ loc.category = "mods" := by
  simp only [classifyConfigPath, hrel] at h
  split at h
  · cases h
  · rw [if_neg (by decide : "config" ≠ "plugins")] at h
    simp only [if_true] at h
    split at h
    · cases h
      exact .inl rfl
    · cases h
      exact .inr rfl

theorem category_folder {rel top folder name : String} {loc : ConfigLocation}
    (hrel : parts rel = [top, folder, name]) (h : classifyConfigPath u rel = some loc) :
    loc.category = "plugins" ∨ loc.category = "mods" := by
  simp only [classifyConfigPath, hrel] at h
  split at h
  · cases h
  · split at h
    · cases h
    · split at h
      · split at h
        · cases h
        · cases h
          exact .inl rfl
      · split at h
        · cases h
          exact .inr rfl
        · cases h

/-- The names of a path the classifier takes. -/
theorem exists_of_classify {rel : String} (h : classifyConfigPath u rel ≠ none) :
    ∃ dir name, parts rel = dir ++ [name] ∧ name ≠ "" ∧
      (dir = [] ∨ dir = ["config"] ∨ dir = ["plugins"] ∨
        ∃ top ∈ ["config", "plugins"], ∃ folder, dir = [top, folder] ∧ folder ≠ "" ∧
          ¬ ".".toList <+: folder.toList) := by
  have hname {format : String} {name : String} (hformat : extFormat u name = some format) :
      name ≠ "" := by
    rintro rfl
    have hext : (ext "").map u.toLower = "" := by
      apply String.toList_inj.1
      simp [ext]
    have hnone : configExtensions.lookup "" = none := by decide
    rw [extFormat, hext, hnone] at hformat
    cases hformat
  cases hparts : parts rel with
  | nil => exact absurd hparts (parts_ne_nil rel)
  | cons a ps =>
    unfold classifyConfigPath at h
    simp only [hparts] at h
    cases hformat : extFormat u ((a :: ps).getLastD "") with
    | none => simp only [hformat, ne_eq, not_true_eq_false] at h
    | some format =>
      simp only [hformat] at h
      match ps with
      | [] =>
        have ha : a ≠ "" := hname hformat
        exact ⟨[], a, rfl, ha, .inl rfl⟩
      | [b] =>
        have hb : b ≠ "" := hname hformat
        refine ⟨[a], b, rfl, hb, ?_⟩
        by_cases hplugins : a = "plugins"
        · subst hplugins
          exact .inr (.inr (.inl rfl))
        · by_cases hconfig : a = "config"
          · subst hconfig
            exact .inr (.inl rfl)
          · simp only [hplugins, hconfig, if_false, ne_eq, not_true_eq_false] at h
      | [b, c] =>
        have hc : c ≠ "" := hname hformat
        refine ⟨[a, b], c, rfl, hc, .inr (.inr (.inr ⟨a, ?_, b, rfl, ?_⟩))⟩
        · by_cases hplugins : a = "plugins"
          · simp [hplugins]
          · by_cases hconfig : a = "config"
            · simp [hconfig]
            · simp [hplugins, hconfig] at h
        · by_cases hfolder : b = "" ∨ ".".toList <+: b.toList
          · simp only [hfolder, if_true, ne_eq, not_true_eq_false] at h
          · exact not_or.1 hfolder
      | b :: c :: e :: ps => simp only [ne_eq, not_true_eq_false] at h

/-! ## What is listed -/

theorem mem_scan {entries : List (String × Kind)} {dir cats : List String} {relDir : String}
    {c : ConfigFile} :
    c ∈ scan u entries dir relDir cats ↔ ∃ name k loc, (name, k) ∈ entries ∧ k ≠ .dir ∧
      classifyConfigPath u (Path.join [relDir, name]) = some loc ∧ loc.category ∈ cats ∧
      makeConfigFile dir name loc = c := by
  rw [scan, List.mem_filterMap]
  constructor
  · rintro ⟨⟨name, k⟩, hmem, heq⟩
    by_cases hk : k = .dir
    · rw [if_pos hk] at heq
      cases heq
    · rw [if_neg hk] at heq
      split at heq
      · next loc hloc =>
        split at heq
        · next hcat =>
          cases heq
          exact ⟨name, k, loc, hmem, hk, hloc, hcat, rfl⟩
        · cases heq
      · cases heq
  · rintro ⟨name, k, loc, hmem, hk, hloc, hcat, rfl⟩
    refine ⟨(name, k), hmem, ?_⟩
    simp only [hk, if_false, hloc, hcat, if_true]

/-- The files a scan finds in a directory that is read. -/
theorem mem_scan_readDir {dir cats : List String} (hdir : ∀ n ∈ dir, Plain n) {c : ConfigFile} :
    c ∈ scan u ((readDir t dir).getD []) dir (joinSlash dir) cats ↔
      ∃ name k loc, Shown t dir name k ∧ k ≠ .dir ∧
        classifyConfigPath u (joinSlash (dir ++ [name])) = some loc ∧ loc.category ∈ cats ∧
        makeConfigFile dir name loc = c := by
  rw [mem_scan]
  constructor
  · rintro ⟨name, k, loc, hmem, hk, hloc, hcat, hc⟩
    have hshown := mem_getD_readDir.1 hmem
    rw [join_plain hdir hshown.plain] at hloc
    exact ⟨name, k, loc, hshown, hk, hloc, hcat, hc⟩
  · rintro ⟨name, k, loc, hshown, hk, hloc, hcat, hc⟩
    rw [← join_plain hdir hshown.plain] at hloc
    exact ⟨name, k, loc, mem_getD_readDir.2 hshown, hk, hloc, hcat, hc⟩

theorem join_folder {top folder : String} (htop : Plain top) (hfolder : Plain folder) :
    Path.join [top, folder] = joinSlash [top, folder] :=
  @join_plain [top] folder (by simpa using htop) hfolder

/-- Scanning the folders in a directory scans each. -/
theorem mem_scanSub {top : String} (htop : Plain top) {c : ConfigFile} :
    c ∈ scanSub u t ((readDir t [top]).getD []) [top] top ↔
      ∃ folder, Shown t [top] folder .dir ∧
        c ∈ scan u ((readDir t [top, folder]).getD []) [top, folder] (joinSlash [top, folder])
          ["plugins", "mods"] := by
  rw [scanSub, List.mem_flatMap]
  constructor
  · rintro ⟨⟨folder, k⟩, hmem, hc⟩
    by_cases hk : k = .dir
    · subst hk
      have hshown := mem_getD_readDir.1 hmem
      rw [if_pos rfl, join_folder htop hshown.plain] at hc
      exact ⟨folder, hshown, hc⟩
    · rw [if_neg hk] at hc
      exact absurd hc List.not_mem_nil
  · rintro ⟨folder, hshown, hc⟩
    refine ⟨(folder, .dir), mem_getD_readDir.2 hshown, ?_⟩
    rw [if_pos rfl, join_folder htop hshown.plain]
    exact hc

/-- A name in a scanned directory that is no directory, and that the classifier takes. -/
structure Found (u : Letters) (t : LinkTree) (dir : List String) (name : String) (k : Kind) :
    Prop where
  scanned : Scanned t dir
  shown : Shown t dir name k
  notDir : k ≠ .dir
  offered : Offered u (dir ++ [name])

theorem Found.plain {dir : List String} {name : String} {k : Kind} (h : Found u t dir name k) :
    ∀ n ∈ dir ++ [name], Plain n :=
  plain_snoc h.scanned.plain h.shown.plain

/-- The scans of a listing, each of a directory for the files of some categories. -/
inductive Scan (t : LinkTree) : List String → List String → Prop
  | root : Scan t [] ["server"]
  | serverConfig : Scan t ["config"] ["server"]
  | plugins : Scan t ["plugins"] ["plugins"]
  | config : Scan t ["config"] ["mods"]
  | folder {top folder : String} (htop : top ∈ ["config", "plugins"])
      (hfolder : Shown t [top] folder .dir) : Scan t [top, folder] ["plugins", "mods"]

theorem Scan.scanned {dir cats : List String} (h : Scan t dir cats) : Scanned t dir := by
  cases h with
  | root => exact .root
  | serverConfig => exact .config
  | plugins => exact .plugins
  | config => exact .config
  | folder htop hfolder => exact .folder htop hfolder

/-- A listing is what its scans find. -/
theorem mem_listTree_iff {c : ConfigFile} :
    c ∈ listTree u t ↔ ∃ dir cats, Scan t dir cats ∧
      c ∈ scan u ((readDir t dir).getD []) dir (joinSlash dir) cats := by
  have hplugins : Plain "plugins" := by decide
  have hconfig : Plain "config" := by decide
  simp only [listTree, List.mem_append, mem_scanSub hplugins, mem_scanSub hconfig]
  constructor
  · rintro (((hc | hc) | (hc | ⟨folder, hfolder, hc⟩)) | (hc | ⟨folder, hfolder, hc⟩))
    · exact ⟨_, _, .root, hc⟩
    · exact ⟨_, _, .serverConfig, hc⟩
    · exact ⟨_, _, .plugins, hc⟩
    · exact ⟨_, _, .folder (by simp) hfolder, hc⟩
    · exact ⟨_, _, .config, hc⟩
    · exact ⟨_, _, .folder (by simp) hfolder, hc⟩
  · rintro ⟨dir, cats, hscan, hc⟩
    cases hscan with
    | root => exact .inl (.inl (.inl hc))
    | serverConfig => exact .inl (.inl (.inr hc))
    | plugins => exact .inl (.inr (.inl hc))
    | config => exact .inr (.inl hc)
    | @folder top folder htop hfolder =>
      simp only [List.mem_cons, List.not_mem_nil, or_false] at htop
      obtain rfl | rfl := htop
      · exact .inr (.inr ⟨folder, hfolder, hc⟩)
      · exact .inl (.inr (.inr ⟨folder, hfolder, hc⟩))

/-- Every category of a directory's files is scanned for. -/
theorem exists_scan {dir : List String} {name : String} {loc : ConfigLocation}
    (hdir : Scanned t dir) (hname : Plain name)
    (hloc : classifyConfigPath u (joinSlash (dir ++ [name])) = some loc) :
    ∃ cats, Scan t dir cats ∧ loc.category ∈ cats := by
  have hparts := parts_snoc hdir.plain hname
  cases hdir with
  | root => exact ⟨_, .root, by simp [category_root hparts hloc]⟩
  | config =>
    cases category_config hparts hloc with
    | inl hcat => exact ⟨_, .serverConfig, by simp [hcat]⟩
    | inr hcat => exact ⟨_, .config, by simp [hcat]⟩
  | plugins => exact ⟨_, .plugins, by simp [category_plugins hparts hloc]⟩
  | folder htop hfolder =>
    refine ⟨_, .folder htop hfolder, ?_⟩
    cases category_folder hparts hloc with
    | inl hcat => simp [hcat]
    | inr hcat => simp [hcat]

/-- The paths listed are those of the names found. -/
theorem mem_listTree {rel : String} :
    rel ∈ (listTree u t).map (·.relPath) ↔
      ∃ dir name k, Found u t dir name k ∧ joinSlash (dir ++ [name]) = rel := by
  rw [List.mem_map]
  constructor
  · rintro ⟨c, hc, rfl⟩
    obtain ⟨dir, cats, hscan, hc⟩ := mem_listTree_iff.1 hc
    obtain ⟨name, k, loc, hshown, hk, hloc, -, rfl⟩ := (mem_scan_readDir hscan.scanned.plain).1 hc
    refine ⟨dir, name, k, ⟨hscan.scanned, hshown, hk, ?_⟩, rfl⟩
    rw [Offered, hloc]
    exact Option.some_ne_none loc
  · rintro ⟨dir, name, k, hfound, rfl⟩
    obtain ⟨loc, hloc⟩ := Option.ne_none_iff_exists'.1 hfound.offered
    obtain ⟨cats, hscan, hcat⟩ := exists_scan hfound.scanned hfound.shown.plain hloc
    refine ⟨makeConfigFile dir name loc, mem_listTree_iff.2 ⟨dir, cats, hscan, ?_⟩, rfl⟩
    exact (mem_scan_readDir hfound.scanned.plain).2
      ⟨name, k, loc, hfound.shown, hfound.notDir, hloc, hcat, rfl⟩

/-! ## Nothing is listed twice -/

theorem filterMap_sublist_map {α β : Type} {f : α → Option β} {g : α → β}
    (h : ∀ a b, f a = some b → b = g a) (l : List α) : (l.filterMap f).Sublist (l.map g) := by
  induction l with
  | nil => exact List.Sublist.refl _
  | cons a l ih =>
    rw [List.map_cons]
    cases hf : f a with
    | none =>
      rw [List.filterMap_cons_none hf]
      exact ih.cons _
    | some b =>
      rw [List.filterMap_cons_some hf, h a b hf]
      exact ih.cons_cons _

/-- What a file is listed under, with its category. -/
def Filed (u : Letters) (dir cats : List String) (c : ConfigFile) : Prop :=
  ∃ name loc, Plain name ∧ c.relPath = joinSlash (dir ++ [name]) ∧
    classifyConfigPath u c.relPath = some loc ∧ loc.category ∈ cats

theorem filed_of_mem_scan {dir cats : List String} (hdir : ∀ n ∈ dir, Plain n) {c : ConfigFile}
    (h : c ∈ scan u ((readDir t dir).getD []) dir (joinSlash dir) cats) : Filed u dir cats c := by
  obtain ⟨name, k, loc, hshown, -, hloc, hcat, rfl⟩ := (mem_scan_readDir hdir).1 h
  exact ⟨name, loc, hshown.plain, rfl, hloc, hcat⟩

/-- Files of different scans have different paths. -/
theorem Filed.relPath_ne {dir dir' cats cats' : List String} {c c' : ConfigFile}
    (h : Filed u dir cats c) (h' : Filed u dir' cats' c') (hdir : ∀ n ∈ dir, Plain n)
    (hdir' : ∀ n ∈ dir', Plain n) (hne : dir ≠ dir' ∨ ∀ cat ∈ cats, cat ∉ cats') :
    c.relPath ≠ c'.relPath := by
  obtain ⟨name, loc, hname, hrel, hloc, hcat⟩ := h
  obtain ⟨name', loc', hname', hrel', hloc', hcat'⟩ := h'
  intro heq
  cases hne with
  | inl hne =>
    have hparts := congrArg parts (hrel.symm.trans (heq.trans hrel'))
    rw [parts_snoc hdir hname, parts_snoc hdir' hname'] at hparts
    exact hne (List.append_inj_left' hparts rfl)
  | inr hne =>
    rw [heq, hloc'] at hloc
    cases hloc
    exact hne _ hcat hcat'

theorem nodup_scan {dir cats : List String} (hdir : ∀ n ∈ dir, Plain n) :
    ((scan u ((readDir t dir).getD []) dir (joinSlash dir) cats).map (·.relPath)).Nodup := by
  have hsub : ((scan u ((readDir t dir).getD []) dir (joinSlash dir) cats).map
      (·.relPath)).Sublist
      (((readDir t dir).getD []).map fun e => joinSlash (dir ++ [e.1])) := by
    rw [scan, List.map_filterMap]
    apply filterMap_sublist_map
    intro e rel heq
    obtain ⟨c, hc, rfl⟩ := Option.map_eq_some_iff.1 heq
    split at hc
    · cases hc
    · split at hc
      · split at hc
        · cases hc
          rfl
        · cases hc
      · cases hc
  apply List.Nodup.sublist hsub
  have hnames := nodup_getD_readDir t dir
  rw [List.nodup_map_iff_inj_on (List.Nodup.of_map _ hnames)]
  rintro ⟨name, k⟩ he ⟨name', k'⟩ he' heq
  have hname := (mem_getD_readDir.1 he).plain
  have hname' := (mem_getD_readDir.1 he').plain
  have hparts := congrArg parts heq
  rw [parts_snoc hdir hname, parts_snoc hdir hname'] at hparts
  obtain rfl : name = name' := by simpa using hparts
  exact List.inj_on_of_nodup_map hnames he he' rfl

/-- The scans of the folders in a directory list no path twice. -/
theorem nodup_scanSub {top : String} (htop : Plain top) :
    ((scanSub u t ((readDir t [top]).getD []) [top] top).map (·.relPath)).Nodup := by
  have hnames := nodup_getD_readDir t [top]
  have hplain {folder : String} (hfolder : Plain folder) : ∀ n ∈ [top, folder], Plain n := by
    simpa using ⟨htop, hfolder⟩
  have hscan {e : String × Kind} (he : e ∈ (readDir t [top]).getD []) {c : ConfigFile}
      (hc : c ∈ if e.2 = .dir then
        scan u ((readDir t ([top] ++ [e.1])).getD []) ([top] ++ [e.1]) (Path.join [top, e.1])
          ["plugins", "mods"] else []) : Filed u [top, e.1] ["plugins", "mods"] c := by
    have hfolder := (mem_getD_readDir.1 he).plain
    split at hc
    · rw [join_folder htop hfolder] at hc
      exact filed_of_mem_scan (hplain hfolder) hc
    · exact absurd hc List.not_mem_nil
  rw [scanSub, List.map_flatMap, List.nodup_flatMap]
  constructor
  · rintro ⟨folder, k⟩ he
    have hfolder := (mem_getD_readDir.1 he).plain
    split
    · rw [join_folder htop hfolder]
      exact nodup_scan (hplain hfolder)
    · exact List.nodup_nil
  · have hpair : ((readDir t [top]).getD []).Pairwise fun e e' => e.1 ≠ e'.1 :=
      List.pairwise_map.1 hnames
    apply hpair.imp_of_mem
    intro e e' he he' hne rel hrel hrel'
    obtain ⟨c, hc, rfl⟩ := List.mem_map.1 hrel
    obtain ⟨c', hc', heq⟩ := List.mem_map.1 hrel'
    apply (hscan he hc).relPath_ne (hscan he' hc') (hplain (mem_getD_readDir.1 he).plain)
      (hplain (mem_getD_readDir.1 he').plain) (.inl _) heq.symm
    simpa using hne

theorem nodup_map_append {l l' : List ConfigFile} (h : (l.map (·.relPath)).Nodup)
    (h' : (l'.map (·.relPath)).Nodup) (hne : ∀ c ∈ l, ∀ c' ∈ l', c.relPath ≠ c'.relPath) :
    ((l ++ l').map (·.relPath)).Nodup := by
  rw [List.map_append, List.nodup_append]
  refine ⟨h, h', ?_⟩
  intro rel hrel rel' hrel'
  obtain ⟨c, hc, rfl⟩ := List.mem_map.1 hrel
  obtain ⟨c', hc', rfl⟩ := List.mem_map.1 hrel'
  exact hne c hc c' hc'

theorem nodup_listTree (u : Letters) (t : LinkTree) : ((listTree u t).map (·.relPath)).Nodup := by
  have hplugins : Plain "plugins" := by decide
  have hconfig : Plain "config" := by decide
  have hnil : ∀ n ∈ ([] : List String), Plain n := by simp
  have hsingle {top : String} (htop : Plain top) : ∀ n ∈ [top], Plain n := by simpa using htop
  have hpair {top folder : String} (htop : Plain top) (hfolder : Plain folder) :
      ∀ n ∈ [top, folder], Plain n := by simpa using ⟨htop, hfolder⟩
  have hsub {top : String} (htop : Plain top) {c : ConfigFile}
      (hc : c ∈ scanSub u t ((readDir t [top]).getD []) [top] top) :
      ∃ folder, Plain folder ∧ Filed u [top, folder] ["plugins", "mods"] c := by
    obtain ⟨folder, hfolder, hc⟩ := (mem_scanSub htop).1 hc
    exact ⟨folder, hfolder.plain, filed_of_mem_scan (hpair htop hfolder.plain) hc⟩
  have hscan {dir cats : List String} (hdir : ∀ n ∈ dir, Plain n) {c : ConfigFile}
      (hc : c ∈ scan u ((readDir t dir).getD []) dir (joinSlash dir) cats) : Filed u dir cats c :=
    filed_of_mem_scan hdir hc
  have hserver : ((scan u ((readDir t []).getD []) [] "" ["server"] ++
      scan u ((readDir t ["config"]).getD []) ["config"] "config" ["server"]).map
      (·.relPath)).Nodup := by
    apply nodup_map_append (nodup_scan hnil) (nodup_scan (hsingle hconfig))
    intro c hc c' hc'
    exact (hscan hnil hc).relPath_ne (hscan (hsingle hconfig) hc') hnil (hsingle hconfig)
      (.inl (by simp))
  have hbelow {top : String} (htop : Plain top) {cats : List String} :
      ((scan u ((readDir t [top]).getD []) [top] top cats ++
        scanSub u t ((readDir t [top]).getD []) [top] top).map (·.relPath)).Nodup := by
    apply nodup_map_append (nodup_scan (hsingle htop)) (nodup_scanSub htop)
    intro c hc c' hc'
    obtain ⟨folder, hfolder, hfiled⟩ := hsub htop hc'
    exact (hscan (hsingle htop) hc).relPath_ne hfiled (hsingle htop) (hpair htop hfolder)
      (.inl (by simp))
  have hserverFiles {c : ConfigFile} (hc : c ∈ scan u ((readDir t []).getD []) [] "" ["server"] ++
      scan u ((readDir t ["config"]).getD []) ["config"] "config" ["server"]) :
      Filed u [] ["server"] c ∨ Filed u ["config"] ["server"] c :=
    (List.mem_append.1 hc).imp (hscan hnil) (hscan (hsingle hconfig))
  have hbelowFiles {top : String} (htop : Plain top) {cats : List String} {c : ConfigFile}
      (hc : c ∈ scan u ((readDir t [top]).getD []) [top] top cats ++
        scanSub u t ((readDir t [top]).getD []) [top] top) :
      Filed u [top] cats c ∨
        ∃ folder, Plain folder ∧ Filed u [top, folder] ["plugins", "mods"] c :=
    (List.mem_append.1 hc).imp (hscan (hsingle htop)) (hsub htop)
  have hfirst {c c' : ConfigFile} (h : Filed u [] ["server"] c ∨ Filed u ["config"] ["server"] c)
      {top : String} (htop : Plain top) {cats : List String} (hcats : ∀ cat ∈ cats, cat ≠ "server")
      (h' : Filed u [top] cats c' ∨
        ∃ folder, Plain folder ∧ Filed u [top, folder] ["plugins", "mods"] c') :
      c.relPath ≠ c'.relPath := by
    have hnot : ∀ cat ∈ ["server"], cat ∉ cats := by
      intro cat hcat hmem
      exact hcats cat hmem (List.mem_singleton.1 hcat)
    obtain h | h := h <;> obtain h' | ⟨folder, hfolder, h'⟩ := h'
    · exact h.relPath_ne h' hnil (hsingle htop) (.inr hnot)
    · exact h.relPath_ne h' hnil (hpair htop hfolder) (.inl (by simp))
    · exact h.relPath_ne h' (hsingle hconfig) (hsingle htop) (.inr hnot)
    · exact h.relPath_ne h' (hsingle hconfig) (hpair htop hfolder) (.inl (by simp))
  apply nodup_map_append (nodup_map_append hserver (hbelow hplugins) _) (hbelow hconfig)
  · intro c hc c' hc'
    cases List.mem_append.1 hc with
    | inl hc => exact hfirst (hserverFiles hc) hconfig (by decide) (hbelowFiles hconfig hc')
    | inr hc =>
      obtain h | ⟨folder, hfolder, h⟩ := hbelowFiles hplugins hc <;>
        obtain h' | ⟨folder', hfolder', h'⟩ := hbelowFiles hconfig hc'
      · exact h.relPath_ne h' (hsingle hplugins) (hsingle hconfig) (.inl (by simp))
      · exact h.relPath_ne h' (hsingle hplugins) (hpair hconfig hfolder') (.inl (by simp))
      · exact h.relPath_ne h' (hpair hplugins hfolder) (hsingle hconfig) (.inl (by simp))
      · exact h.relPath_ne h' (hpair hplugins hfolder) (hpair hconfig hfolder') (.inl (by simp))
  · intro c hc c' hc'
    exact hfirst (hserverFiles hc) hplugins (by decide) (hbelowFiles hplugins hc')

/-! ## What is reached -/

/-- Neither the gate nor the sandbox refuses the path. -/
def Accepted (u : Letters) (d : WorkDir) (rel : String) : Prop :=
  listedConfigPath u rel = .ok () ∧ ∃ p, sandbox d rel = .ok p

/-- `os.Stat` finds a plain file there. -/
def IsFile (t : LinkTree) (path : List String) : Prop :=
  ∃ real, t.walk openLinks path = .ok real ∧ t.kind real = some .file

/-- The path of a plain file that exists. -/
def PlainFile (d : WorkDir) (rel : String) : Prop := ∃ t, d.tree = some t ∧ IsFile t (parts rel)

/-- What is listed is what is reached, and is listed once. -/
structure Agrees (u : Letters) (d : WorkDir) : Prop where
  accepted : ∀ rel ∈ (listConfigFiles u d).map (·.relPath), Accepted u d rel
  listed : ∀ rel, Accepted u d rel → PlainFile d rel →
    rel ∈ (listConfigFiles u d).map (·.relPath)
  nodup : ((listConfigFiles u d).map (·.relPath)).Nodup

/-- A path `filepath.EvalSymlinks` fails for only when something is missing. -/
def Follows (t : LinkTree) (path : List String) : Prop :=
  ∀ e, evalSymlinks t path = .error e → e = .notExist

/-- A tree with neither names the gate refuses nor links the listing passes over. -/
structure Portable (u : Letters) (t : LinkTree) : Prop where
  names : ∀ dir name k, Scanned t dir → Shown t dir name k → k ≠ .dir →
    Offered u (dir ++ [name]) →
    (∀ seg ∈ dir ++ [name], refusedSegment seg = false) ∧ Follows t (dir ++ [name])
  folders : ∀ top ∈ ["config", "plugins"], ∀ folder target name,
    Shown t [top] folder (.link target) → Offered u [top, folder, name] →
    (∀ seg ∈ [top, folder, name], refusedSegment seg = false) → ¬ IsFile t [top, folder, name]

/-- The gate takes a path of plain names that the classifier takes and that has no name it
refuses. -/
theorem listedConfigPath_iff {ps : List String} (hne : ps ≠ []) (h : ∀ p ∈ ps, Plain p)
    (hoffered : Offered u ps) :
    listedConfigPath u (joinSlash ps) = .ok () ↔ ∀ seg ∈ ps, refusedSegment seg = false := by
  have hparts : parts (joinSlash ps) = ps := parts_joinSlash hne fun p hp => (h p hp).2
  have hempty : ¬ (joinSlash ps = "" ∨ clean (joinSlash ps) ≠ joinSlash ps) := by
    rw [clean_joinSlash hne h]
    exact not_or.2 ⟨joinSlash_ne_empty hne h, fun hneq => hneq rfl⟩
  rw [listedConfigPath, if_neg hempty, hparts]
  by_cases hany : ps.any refusedSegment = true
  · rw [if_pos hany]
    obtain ⟨seg, hseg, hrefused⟩ := List.any_eq_true.1 hany
    constructor
    · intro heq
      cases heq
    · intro hall
      rw [hall seg hseg] at hrefused
      cases hrefused
  · rw [if_neg hany, if_neg hoffered]
    constructor
    · intro _ seg hseg
      by_contra hrefused
      exact hany (List.any_eq_true.2 ⟨seg, hseg, Bool.eq_true_of_not_eq_false hrefused⟩)
    · exact fun _ => rfl

/-- A path the gate takes has plain names. -/
theorem exists_of_listed {rel : String} (h : listedConfigPath u rel = .ok ()) :
    ∃ dir name, rel = joinSlash (dir ++ [name]) ∧ (∀ n ∈ dir, Plain n) ∧ Plain name ∧
      Offered u (dir ++ [name]) ∧ (∀ seg ∈ dir ++ [name], refusedSegment seg = false) ∧
      (dir = [] ∨ dir = ["config"] ∨ dir = ["plugins"] ∨
        ∃ top ∈ ["config", "plugins"], ∃ folder, dir = [top, folder]) := by
  unfold listedConfigPath at h
  split at h
  · cases h
  · split at h
    · cases h
    · next hany =>
      split at h
      · cases h
      · next hoffered =>
        obtain ⟨dir, name, hparts, hname, hdir⟩ := exists_of_classify hoffered
        have hrel : rel = joinSlash (dir ++ [name]) := by rw [← hparts, joinSlash_parts]
        have hslash : ∀ n ∈ dir ++ [name], '/' ∉ n.toList := by
          intro n hn
          rw [← hparts] at hn
          exact not_mem_of_mem_parts hn
        have hsegs : ∀ seg ∈ dir ++ [name], refusedSegment seg = false := by
          intro seg hseg
          by_contra hrefused
          rw [hparts] at hany
          exact hany (List.any_eq_true.2 ⟨seg, hseg, Bool.eq_true_of_not_eq_false hrefused⟩)
        have hdots {n : String} (hn : n ∈ dir ++ [name]) (hne : n ≠ "") : Plain n := by
          refine ⟨?_, hslash n hn⟩
          have hrefused := hsegs n hn
          simp only [List.mem_cons, List.not_mem_nil, or_false, not_or]
          refine ⟨hne, ?_, ?_⟩
          · rintro rfl
            exact absurd hrefused (by decide)
          · rintro rfl
            exact absurd hrefused (by decide)
        refine ⟨dir, name, hrel, ?_, hdots (by simp) hname, ?_, hsegs, ?_⟩
        · obtain rfl | rfl | rfl | ⟨top, htop, folder, rfl, hfolder, -⟩ := hdir
          · simp
          · decide
          · decide
          · have htopPlain : top ≠ "" := by
              rintro rfl
              exact absurd htop (by decide)
            simpa using ⟨hdots (by simp) htopPlain, hdots (by simp) hfolder⟩
        · rwa [Offered, ← hrel]
        · obtain hdir | hdir | hdir | ⟨top, htop, folder, hdir, -⟩ := hdir
          · exact .inl hdir
          · exact .inr (.inl hdir)
          · exact .inr (.inr (.inl hdir))
          · exact .inr (.inr (.inr ⟨top, htop, folder, hdir⟩))

/-! ## The sandbox on a path below the directory -/

theorem withinDir_append {dir : List String} (hdir : dir ≠ []) (ps : List String) :
    withinDir (absPath (dir ++ ps)) (absPath dir) = true := by
  by_cases hps : ps = []
  · simp [withinDir, hps]
  · have htext : absPath (dir ++ ps) = absPath dir ++ "/" ++ joinSlash ps := by
      rw [absPath, absPath, joinSlash_append hdir hps]
      simp only [String.append_assoc]
    have hpre : (absPath dir ++ "/").toList <+: (absPath (dir ++ ps)).toList := by
      rw [htext, String.toList_append (s := absPath dir ++ "/")]
      exact List.prefix_append _ _
    rw [withinDir, Bool.or_eq_true]
    exact .inr (List.isPrefixOf_iff_prefix.2 hpre)

/-- A path of plain names is let through when what there is of it resolves. -/
theorem sandbox_iff {ps : List String} (hne : ps ≠ []) (h : ∀ p ∈ ps, Plain p)
    (ht : d.tree = some t) :
    (∃ p, sandbox d (joinSlash ps) = .ok p) ↔ ∃ real, evalNearestExisting t ps = .ok real := by
  have hparts : parts (joinSlash ps) = ps := parts_joinSlash hne fun p hp => (h p hp).2
  have hclean : cleanParts true (d.path ++ ps) = d.path ++ ps := by
    apply cleanParts_of_plain
    intro n hn
    exact (List.mem_append.1 hn).elim (d.plain n) (h n)
  have hdrop : (d.path ++ ps).drop d.path.length = ps := List.drop_left
  simp only [sandbox, hparts, hclean, withinDir_append d.path_ne, ht, hdrop, if_true]
  cases evalNearestExisting t ps with
  | error e => simp
  | ok real => simp [withinDir_append d.real_ne]

theorem evalSymlinks_of_walk {path real : List String} (h : t.walk openLinks path = .ok real) :
    evalSymlinks t path = .ok real := by
  rw [LinkTree.walk_eq] at h
  rw [evalSymlinks, LinkTree.walk_eq]
  exact LinkTree.resume_mono (by decide) h

theorem evalNearestExisting_of_ok {path real : List String} (h : evalSymlinks t path = .ok real) :
    ∃ r, evalNearestExisting t path = .ok r := by
  rw [evalNearestExisting]
  induction path using List.reverseRecOn with
  | nil => exact ⟨[], rfl⟩
  | append_singleton path n =>
    rw [List.reverse_concat, evalNearest, List.reverse_reverse, h]
    exact ⟨real, rfl⟩

/-- A name shown in a directory resolves, or its directory stands in for it. -/
theorem evalNearestExisting_iff {dir : List String} {name : String} {k : Kind}
    (h : Shown t dir name k) :
    (∃ real, evalNearestExisting t (dir ++ [name]) = .ok real) ↔ Follows t (dir ++ [name]) := by
  obtain ⟨real, hwalk, -, -⟩ := shown_iff.1 h
  have hdir := evalNearestExisting_of_ok (evalSymlinks_of_walk hwalk)
  rw [evalNearestExisting] at hdir ⊢
  rw [Follows, List.reverse_concat, evalNearest, List.reverse_reverse]
  cases evalSymlinks t (dir ++ [name]) with
  | ok real => simp
  | error e =>
    cases e with
    | notExist => simpa using hdir
    | notDir => simp
    | tooManyLinks => simp

/-- A plain file is shown in its directory, as no directory. -/
theorem shown_of_isFile {dir : List String} {name : String} (h : IsFile t (dir ++ [name])) :
    ∃ k, Shown t dir name k ∧ k ≠ .dir := by
  obtain ⟨real, hwalk, hfile⟩ := h
  rw [LinkTree.walk_eq] at hwalk
  obtain ⟨r, hr, hdir⟩ := LinkTree.dir_of_resume_append (if_pos rfl) (List.cons_ne_nil _ _) hwalk
  obtain ⟨left, -, hleft⟩ := LinkTree.resume_append [name] hr hdir
  rw [hwalk] at hleft
  rw [← LinkTree.walk_eq] at hr
  cases hkind : t.kind (r ++ [name]) with
  | none =>
    rw [LinkTree.resume_none hkind] at hleft
    cases hleft
  | some k =>
    refine ⟨k, shown_iff.2 ⟨r, hr, hdir, hkind⟩, ?_⟩
    rintro rfl
    rw [LinkTree.resume_dir hkind, LinkTree.resume_nil] at hleft
    cases hleft
    rw [hkind] at hfile
    cases hfile

/-- The folder of a plain file is shown, and is a directory or a link. -/
theorem shown_folder_of_isFile {top folder name : String} (h : IsFile t [top, folder, name]) :
    Shown t [top] folder .dir ∨ ∃ target, Shown t [top] folder (.link target) := by
  obtain ⟨real, hwalk, hfile⟩ := h
  rw [LinkTree.walk_eq] at hwalk
  have happend : [top, folder, name] = [top] ++ [folder, name] := rfl
  rw [happend] at hwalk
  obtain ⟨r, hr, hdir⟩ := LinkTree.dir_of_resume_append (if_pos rfl) (List.cons_ne_nil _ _) hwalk
  obtain ⟨left, -, hleft⟩ := LinkTree.resume_append [folder, name] hr hdir
  rw [hwalk] at hleft
  rw [← LinkTree.walk_eq] at hr
  cases hkind : t.kind (r ++ [folder]) with
  | none =>
    rw [LinkTree.resume_none hkind] at hleft
    cases hleft
  | some k =>
    have hshown : Shown t [top] folder k := shown_iff.2 ⟨r, hr, hdir, hkind⟩
    cases k with
    | dir => exact .inl hshown
    | link target => exact .inr ⟨target, hshown⟩
    | file =>
      rw [LinkTree.resume_file hkind, if_neg (List.cons_ne_nil _ _)] at hleft
      cases hleft

/-! ## Agreement -/

/-- A name that is found is accepted where the gate takes it and it resolves. -/
theorem Found.accepted_iff {dir : List String} {name : String} {k : Kind}
    (h : Found u t dir name k) (ht : d.tree = some t) :
    Accepted u d (joinSlash (dir ++ [name])) ↔
      (∀ seg ∈ dir ++ [name], refusedSegment seg = false) ∧ Follows t (dir ++ [name]) := by
  have hne : dir ++ [name] ≠ [] := by simp
  rw [Accepted, listedConfigPath_iff hne h.plain h.offered, sandbox_iff hne h.plain ht,
    evalNearestExisting_iff h.shown]

/-- Listing and reach agree exactly on the trees without the names the gate refuses, links that
do not resolve, and config files behind a linked folder. -/
theorem listing_agrees (u : Letters) (d : WorkDir) :
    Agrees u d ↔ ∀ t, d.tree = some t → Portable u t := by
  cases ht : d.tree with
  | none =>
    have hlist : listConfigFiles u d = [] := by rw [listConfigFiles, ht]
    constructor
    · intro _ t heq
      cases heq
    · intro _
      constructor
      · simp [hlist]
      · rintro rel - ⟨t, htree, -⟩
        rw [ht] at htree
        cases htree
      · simp [hlist]
  | some t =>
    have hlist : listConfigFiles u d = listTree u t := by rw [listConfigFiles, ht]
    constructor
    · rintro h t' ⟨⟩
      constructor
      · intro dir name k hscanned hshown hk hoffered
        have hfound : Found u t dir name k := ⟨hscanned, hshown, hk, hoffered⟩
        rw [← hfound.accepted_iff ht]
        apply h.accepted
        rw [hlist]
        exact mem_listTree.2 ⟨dir, name, k, hfound, rfl⟩
      · intro top htop folder target name hshown hoffered hsegs hfile
        obtain ⟨k, hname, -⟩ := @shown_of_isFile t [top, folder] name hfile
        have htopPlain : Plain top := by
          simp only [List.mem_cons, List.not_mem_nil, or_false] at htop
          obtain rfl | rfl := htop <;> decide
        have hdir : ∀ n ∈ [top, folder], Plain n := by simpa using ⟨htopPlain, hshown.plain⟩
        have hplain := plain_snoc hdir hname.plain
        have hthree : parts (joinSlash [top, folder, name]) = [top, folder, name] :=
          parts_joinSlash (List.cons_ne_nil _ _) fun n hn => (hplain n hn).2
        obtain ⟨real, hwalk, -⟩ := id hfile
        have haccepted : Accepted u d (joinSlash [top, folder, name]) :=
          ⟨(listedConfigPath_iff (List.cons_ne_nil _ _) hplain hoffered).2 hsegs,
            (sandbox_iff (List.cons_ne_nil _ _) hplain ht).2
              (evalNearestExisting_of_ok (evalSymlinks_of_walk hwalk))⟩
        have hread : IsFile t (parts (joinSlash [top, folder, name])) := by rwa [hthree]
        have hmem := h.listed _ haccepted ⟨t, ht, hread⟩
        rw [hlist] at hmem
        obtain ⟨dir', name', k', hfound, heq⟩ := mem_listTree.1 hmem
        have hparts := congrArg parts heq
        rw [parts_snoc hfound.scanned.plain hfound.shown.plain, hthree] at hparts
        have hsplit : dir' ++ [name'] = [top, folder] ++ [name] := hparts
        obtain rfl : dir' = [top, folder] := List.append_inj_left' hsplit rfl
        cases hfound.scanned with
        | folder _ hreal => exact absurd (hshown.kind_eq hreal) (by simp)
    · intro h
      have hportable := h t rfl
      constructor
      · intro rel hrel
        rw [hlist] at hrel
        obtain ⟨dir, name, k, hfound, rfl⟩ := mem_listTree.1 hrel
        rw [hfound.accepted_iff ht]
        exact hportable.names dir name k hfound.scanned hfound.shown hfound.notDir hfound.offered
      · rintro rel ⟨hlisted, -⟩ ⟨t', htree, hfile⟩
        rw [ht] at htree
        cases htree
        obtain ⟨dir, name, rfl, hdir, hname, hoffered, hsegs, hshape⟩ := exists_of_listed hlisted
        rw [parts_snoc hdir hname] at hfile
        obtain ⟨k, hshown, hk⟩ := shown_of_isFile hfile
        rw [hlist]
        apply mem_listTree.2 ⟨dir, name, k, ⟨?_, hshown, hk, hoffered⟩, rfl⟩
        obtain rfl | rfl | rfl | ⟨top, htop, folder, rfl⟩ := hshape
        · exact .root
        · exact .config
        · exact .plugins
        · cases shown_folder_of_isFile hfile with
          | inl hfolder => exact .folder htop hfolder
          | inr hfolder =>
            obtain ⟨target, hfolder⟩ := hfolder
            exact absurd hfile (hportable.folders top htop folder target name hfolder hoffered hsegs)
      · rw [hlist]
        exact nodup_listTree u t

/-! ## A colon in a name -/

def asciiLetters : Letters where
  toLower := Char.toLower
  equalFold s t := s.map Char.toLower = t.map Char.toLower

/-- A backup of a plugin's config, named after the time it was made. -/
def colonTree : LinkTree where
  entries := [(["plugins"], .dir), (["plugins", "config 10:30.yml"], .file)]
  nodup := by decide
  names := by decide
  below := by decide

def colonDir : WorkDir where
  path := ["srv", "survival"]
  plain := by decide
  path_ne := by decide
  real := ["srv", "survival"]
  real_ne := by decide
  tree := some colonTree

/-- The file is listed, and the gate says it is not one the editor lists. -/
theorem colon_listed_refused : ¬ Agrees asciiLetters colonDir := by
  intro h
  have hlisted : "plugins/config 10:30.yml" ∈
      (listConfigFiles asciiLetters colonDir).map (·.relPath) := by decide +kernel
  have hrefused : listedConfigPath asciiLetters "plugins/config 10:30.yml" =
      .error errNotListedConfig := by decide +kernel
  have haccepted := (h.accepted _ hlisted).1
  rw [hrefused] at haccepted
  cases haccepted

end Konnekt.ConfigEditor
