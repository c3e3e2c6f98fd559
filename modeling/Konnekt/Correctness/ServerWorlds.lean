import Konnekt.Backup.ServerWorlds

/-!
# The worlds of an archive in any order

The systems that are read off a server archive are those of its folders, one for
each world. Everything in a system is the same for every order of the entries, but
for what its `level.dat` says: that is read when its folder comes before those of
the other dimensions only.
-/

namespace Konnekt.Backup

open Go
open Mcp (classifyWorldDir)

variable {μ : Type} [Inhabited μ] {read : Reading μ} {files files' : List ZipFile}

/-! ## Names of folders -/

/-- What the folder of a dimension has behind the name of its world. -/
def dimensionSuffix (kind : String) : String :=
  if kind = "the_end" then "_the_end" else if kind = "nether" then "_nether" else ""

theorem append_trimSuffix {s suf : String} (h : suf.toList <:+ s.toList) :
    s = trimSuffix s suf ++ suf := by
  obtain ⟨pre, hpre⟩ := h
  have hs : s = String.ofList pre ++ suf := by
    apply String.toList_inj.1
    rw [String.toList_append, String.toList_ofList, hpre]
  conv_rhs => rw [hs, trimSuffix_append]
  exact hs

/-- A folder is called as its world and its kind say. -/
theorem eq_of_classifyWorldDir {dir base kind : String} (h : classifyWorldDir dir = (base, kind)) :
    dir = base ++ dimensionSuffix kind := by
  unfold classifyWorldDir at h
  split at h
  · next hend =>
    obtain ⟨rfl, rfl⟩ := Prod.mk.inj h
    exact append_trimSuffix hend
  · split at h
    · next hnether =>
      obtain ⟨rfl, rfl⟩ := Prod.mk.inj h
      exact append_trimSuffix hnether
    · obtain ⟨rfl, rfl⟩ := Prod.mk.inj h
      exact String.append_empty.symm

/-- The folder a `level.dat` is in, and what it was read as. -/
structure IsLevelDatDir (f : ZipFile) (de : LevelDatDir) : Prop where
  name : f.name = de.dir ++ "/level.dat"
  slash : '/' ∉ de.dir.toList
  classified : classifyWorldDir de.dir = (de.base, de.kind)
  levelDat : de.levelDat = if de.kind = "overworld" then some f else none

theorem levelDatDir_eq_some {f : ZipFile} {de : LevelDatDir} :
    levelDatDir f = some de ↔ IsLevelDatDir f de := by
  constructor
  · intro h
    unfold levelDatDir at h
    split at h
    · next hsuffix =>
      simp only at h
      split at h
      · cases h
      · next hslash =>
        cases hclass : classifyWorldDir (trimSuffix f.name "/level.dat") with
        | mk base kind =>
          rw [hclass] at h
          cases h
          refine ⟨append_trimSuffix hsuffix, hslash, hclass, ?_⟩
          rfl
    · cases h
  · intro h
    have hsuffix : "/level.dat".toList <:+ f.name.toList := by
      rw [h.name, String.toList_append]
      exact List.suffix_append _ _
    have hdir : trimSuffix f.name "/level.dat" = de.dir := by rw [h.name, trimSuffix_append]
    unfold levelDatDir
    rw [if_pos hsuffix]
    simp only [hdir, if_neg h.slash, h.classified]
    rw [← h.levelDat]

/-! ## The systems -/

/-- The folders of a world. -/
def ownDirs (files : List ZipFile) (base : String) : List LevelDatDir :=
  (files.filterMap levelDatDir).filter fun de => de.base == base

def LevelDatDir.dimension (de : LevelDatDir) : ZippedDimension := ⟨de.kind, de.dir⟩

theorem lookup_groupDir (des : List LevelDatDir) (base : String) :
    (des.foldl (groupDir read) ∅).lookup base =
      (des.filter fun de => de.base == base).head?.map fun de =>
        { name := base, info := de.info read,
          dimensions := (des.filter fun de => de.base == base).map LevelDatDir.dimension } := by
  induction des using List.reverseRecOn with
  | nil => rfl
  | append_singleton des de ih =>
    rw [List.foldl_append, List.foldl_cons, List.foldl_nil, groupDir, List.filter_append]
    by_cases hbase : de.base = base
    · subst hbase
      rw [AList.lookup_insert, ih]
      cases hown : des.filter (fun de' => de'.base == de.base) with
      | nil => simp [LevelDatDir.dimension]
      | cons first rest => simp [LevelDatDir.dimension]
    · have hnone : [de].filter (fun de => de.base == base) = [] := by simp [hbase]
      rw [AList.lookup_insert_ne (Ne.symm hbase), ih, hnone, List.append_nil]

/-- The dimensions of a world: its folders, and the ones inside. -/
def dimensionsOf (files : List ZipFile) (base : String) : List ZippedDimension :=
  vanillaDimensions.foldl (addVanilla files base)
    ((ownDirs files base).map LevelDatDir.dimension)

/-- The systems before files are counted. -/
def groupedSystems (read : Reading μ) (files : List ZipFile) : GoMap (WorldSystem μ) :=
  detectVanilla files ((files.filterMap levelDatDir).foldl (groupDir read) ∅)

theorem lookup_groupedSystems (base : String) :
    (groupedSystems read files).lookup base = (ownDirs files base).head?.map fun de =>
      { name := base, info := de.info read, dimensions := dimensionsOf files base } := by
  rw [groupedSystems, detectVanilla, GoMap.lookup_mapVals, lookup_groupDir, Option.map_map]
  rfl

/-- The prefixes that files count for. -/
def prefixesOf (read : Reading μ) (files : List ZipFile) : List (String × String) :=
  sizePrefixes (files.filterMap levelDatDir) (groupedSystems read files)

/-- The world a file counts for. -/
def countsFor (prefixes : List (String × String)) (f : ZipFile) : Option String :=
  if f.isDir then none else (bestPrefix prefixes f.name).2

/-- The files that count for a world. -/
def countedFiles (prefixes : List (String × String)) (files : List ZipFile) (base : String) :
    List ZipFile :=
  files.filter fun f => countsFor prefixes f == some base

def addSizes (n : Int64) (files : List ZipFile) : Int64 :=
  files.foldl (fun n f => n + f.zipEntrySize) n

def newest (t : Int) (files : List ZipFile) : Int :=
  files.foldl (fun t f => if t < f.modified then f.modified else t) t

omit [Inhabited μ] in
theorem lookup_countFile (prefixes : List (String × String)) (systems : GoMap (WorldSystem μ))
    (base : String) : (files.foldl (countFile prefixes) systems).lookup base =
      (systems.lookup base).map fun sys =>
        { sys with
          totalSize := addSizes sys.totalSize (countedFiles prefixes files base)
          modified := newest sys.modified (countedFiles prefixes files base) } := by
  induction files generalizing systems with
  | nil =>
    cases hlookup : systems.lookup base <;> simp [countedFiles, addSizes, newest, hlookup]
  | cons f files ih =>
    rw [List.foldl_cons, ih]
    by_cases hcounts : countsFor prefixes f = some base
    · have hcons : countedFiles prefixes (f :: files) base =
          f :: countedFiles prefixes files base := by simp [countedFiles, hcounts]
      have hdir : f.isDir = false := by
        cases hdir : f.isDir with
        | false => rfl
        | true => simp [countsFor, hdir] at hcounts
      have hbest : (bestPrefix prefixes f.name).2 = some base := by
        simpa [countsFor, hdir] using hcounts
      rw [hcons]
      simp only [countFile, hdir, hbest]
      cases hlookup : systems.lookup base with
      | none => simp [hlookup]
      | some sys => simp [AList.lookup_insert, addSizes, newest]
    · have hskip : countedFiles prefixes (f :: files) base = countedFiles prefixes files base := by
        simp [countedFiles, hcounts]
      have hsame : (countFile prefixes systems f).lookup base = systems.lookup base := by
        unfold countFile
        split
        · rfl
        · next hdir =>
          split
          · rfl
          · next other hbest =>
            have hother : base ≠ other := by
              rintro rfl
              exact hcounts (by rw [countsFor, if_neg hdir, hbest])
            split
            · rfl
            · exact AList.lookup_insert_ne hother
      rw [hskip, hsame]

/-- The system of a world whose first folder is given. -/
def systemOf (read : Reading μ) (files : List ZipFile) (base : String) (first : LevelDatDir) :
    WorldSystem μ where
  name := base
  active := base == zippedLevelName read files
  totalSize := addSizes 0 (countedFiles (prefixesOf read files) files base)
  modified := newest 0 (countedFiles (prefixesOf read files) files base)
  dimensions := dimensionsOf files base
  info := first.info read

theorem mem_worldsFromServerZip {s : WorldSystem μ} : s ∈ worldsFromServerZip read files ↔
    ∃ base first, (ownDirs files base).head? = some first ∧ s = systemOf read files base first := by
  have hfinal (base : String) : ((files.foldl (countFile (prefixesOf read files))
      (groupedSystems read files)).lookup base).map (fun sys =>
        { sys with active := sys.name == zippedLevelName read files }) =
      (ownDirs files base).head?.map (systemOf read files base) := by
    rw [lookup_countFile, lookup_groupedSystems, Option.map_map, Option.map_map]
    rfl
  change s ∈ (GoMap.values (files.foldl (countFile (prefixesOf read files))
    (groupedSystems read files))).map _ ↔ _
  rw [List.mem_map]
  constructor
  · rintro ⟨sys, hsys, rfl⟩
    obtain ⟨base, hlookup⟩ := GoMap.mem_values.1 hsys
    have h := hfinal base
    rw [hlookup, Option.map_some] at h
    obtain ⟨first, hfirst, heq⟩ := Option.map_eq_some_iff.1 h.symm
    exact ⟨base, first, hfirst, heq.symm⟩
  · rintro ⟨base, first, hfirst, rfl⟩
    have h := hfinal base
    rw [hfirst, Option.map_some] at h
    obtain ⟨sys, hlookup, heq⟩ := Option.map_eq_some_iff.1 h
    exact ⟨sys, GoMap.mem_values.2 ⟨base, hlookup⟩, heq⟩

theorem mem_ownDirs {base : String} {de : LevelDatDir} : de ∈ ownDirs files base ↔
    (∃ f ∈ files, IsLevelDatDir f de) ∧ de.base = base := by
  simp only [ownDirs, List.mem_filter, List.mem_filterMap, levelDatDir_eq_some, beq_iff_eq]

/-! ## Dimensions -/

theorem hasDimensionKind_iff {dims : List ZippedDimension} {kind : String} :
    hasDimensionKind dims kind = true ↔ kind ∈ dims.map ZippedDimension.kind := by
  simp [hasDimensionKind]

/-- A sub-dimension is added at the end, when its kind is not there. -/
theorem addVanilla_cases (base : String) (dims : List ZippedDimension) (sub : String × String) :
    addVanilla files base dims sub = dims ∨
      sub.2 ∉ dims.map ZippedDimension.kind ∧ addVanilla files base dims sub =
        dims ++ [⟨sub.2, base ++ trimSuffix sub.1 "/"⟩] := by
  unfold addVanilla
  split
  · exact .inl rfl
  · next hkind =>
    split
    · exact .inr ⟨fun hmem => hkind (hasDimensionKind_iff.2 hmem), rfl⟩
    · exact .inl rfl

theorem nodup_addVanilla {base : String} {dims : List ZippedDimension} {sub : String × String}
    (h : (dims.map ZippedDimension.kind).Nodup) :
    ((addVanilla files base dims sub).map ZippedDimension.kind).Nodup := by
  rcases @addVanilla_cases files base dims sub with heq | ⟨hnew, heq⟩
  · rwa [heq]
  · rw [heq, List.map_append, List.map_singleton, ← List.concat_eq_append]
    exact h.concat hnew

/-- The folders of a world are of different kinds. -/
theorem nodup_ownDirs (hnames : (files.map ZipFile.name).Nodup) (base : String) :
    ((ownDirs files base).map LevelDatDir.kind).Nodup := by
  have hdes : ((files.filterMap levelDatDir).map LevelDatDir.dir).Nodup := by
    clear base
    induction files with
    | nil => exact List.nodup_nil
    | cons f files ih =>
      obtain ⟨hf, hrest⟩ := List.nodup_cons.1 hnames
      rw [List.filterMap_cons]
      split
      · exact ih hrest
      · next de hde =>
        rw [List.map_cons, List.nodup_cons]
        refine ⟨fun hmem => hf ?_, ih hrest⟩
        obtain ⟨de', hde', heq⟩ := List.mem_map.1 hmem
        obtain ⟨f', hf', hde'⟩ := List.mem_filterMap.1 hde'
        rw [List.mem_map]
        refine ⟨f', hf', ?_⟩
        rw [(levelDatDir_eq_some.1 hde').name, (levelDatDir_eq_some.1 hde).name, heq]
  have hown : ((ownDirs files base).map LevelDatDir.dir).Nodup :=
    hdes.sublist (List.filter_sublist.map _)
  apply List.Nodup.of_map (fun kind => base ++ dimensionSuffix kind)
  have hsame : ((ownDirs files base).map LevelDatDir.kind).map
      (fun kind => base ++ dimensionSuffix kind) = (ownDirs files base).map LevelDatDir.dir := by
    rw [List.map_map]
    apply List.map_congr_left
    intro de hde
    obtain ⟨⟨f, -, hf⟩, rfl⟩ := mem_ownDirs.1 hde
    exact (eq_of_classifyWorldDir hf.classified).symm
  rwa [hsame]

/-- No kind of dimension is in a world twice. -/
theorem nodup_dimensionsOf (hnames : (files.map ZipFile.name).Nodup) (base : String) :
    ((dimensionsOf files base).map ZippedDimension.kind).Nodup := by
  have hown : (((ownDirs files base).map LevelDatDir.dimension).map ZippedDimension.kind).Nodup := by
    rw [List.map_map]
    exact nodup_ownDirs hnames base
  exact nodup_addVanilla (nodup_addVanilla hown)

theorem any_perm {p : ZipFile → Bool} (h : files.Perm files') : files.any p = files'.any p := by
  rw [Bool.eq_iff_iff, List.any_eq_true, List.any_eq_true]
  simp only [h.mem_iff]

theorem perm_addVanilla (h : files.Perm files') {base : String} {dims dims' : List ZippedDimension}
    (hdims : dims.Perm dims') (sub : String × String) :
    (addVanilla files base dims sub).Perm (addVanilla files' base dims' sub) := by
  have hkind : hasDimensionKind dims sub.2 = hasDimensionKind dims' sub.2 := by
    rw [Bool.eq_iff_iff, hasDimensionKind_iff, hasDimensionKind_iff, (hdims.map _).mem_iff]
  unfold addVanilla
  rw [hkind, any_perm h]
  split
  · exact hdims
  · split
    · exact hdims.append_right _
    · exact hdims

theorem perm_ownDirs (h : files.Perm files') (base : String) :
    (ownDirs files base).Perm (ownDirs files' base) :=
  (h.filterMap _).filter _

theorem perm_dimensionsOf (h : files.Perm files') (base : String) :
    (dimensionsOf files base).Perm (dimensionsOf files' base) :=
  perm_addVanilla h (perm_addVanilla h ((perm_ownDirs h base).map _) _) _

/-! ## The prefixes -/

/-- A name without a slash ends at the first slash of a path. -/
theorem append_slash_inj {a b x y : String} (ha : '/' ∉ a.toList) (hb : '/' ∉ b.toList)
    (h : a ++ "/" ++ x = b ++ "/" ++ y) : a = b ∧ x = y := by
  have hlist := congrArg String.toList h
  simp only [String.toList_append, List.append_assoc] at hlist
  change a.toList ++ '/' :: x.toList = b.toList ++ '/' :: y.toList at hlist
  have hsplit := congrArg (splitChars '/') hlist
  rw [splitChars_append ha, splitChars_append hb] at hsplit
  obtain rfl : a = b := String.toList_inj.1 (List.cons.inj hsplit).1
  exact ⟨rfl, String.toList_inj.1 (List.cons.inj (List.append_cancel_left hlist)).2⟩

theorem not_slash_base {f : ZipFile} {de : LevelDatDir} (h : IsLevelDatDir f de) :
    '/' ∉ de.base.toList := by
  intro hmem
  apply h.slash
  rw [eq_of_classifyWorldDir h.classified, String.toList_append]
  exact List.mem_append_left _ hmem

/-- A prefix is that of a folder of a world, or of a sub-dimension inside one. -/
inductive IsPrefix (files : List ZipFile) : String → String → Prop
  | own {f : ZipFile} {de : LevelDatDir} (hf : f ∈ files) (h : IsLevelDatDir f de) :
      IsPrefix files (de.dir ++ "/" ++ "") de.base
  | inside {f : ZipFile} {de : LevelDatDir} (sub : String) (hf : f ∈ files)
      (h : IsLevelDatDir f de) (hsub : sub = "DIM-1/" ∨ sub = "DIM1/") :
      IsPrefix files (de.base ++ "/" ++ sub) de.base

theorem mem_dimensionsOf {base : String} {d : ZippedDimension} (h : d ∈ dimensionsOf files base) :
    (∃ de ∈ ownDirs files base, d = de.dimension) ∨
      ∃ sub ∈ vanillaDimensions, d = ⟨sub.2, base ++ trimSuffix sub.1 "/"⟩ := by
  have hstep (dims : List ZippedDimension) (sub : String × String)
      (hd : d ∈ addVanilla files base dims sub) :
      d ∈ dims ∨ d = ⟨sub.2, base ++ trimSuffix sub.1 "/"⟩ := by
    rcases @addVanilla_cases files base dims sub with heq | ⟨-, heq⟩
    · exact .inl (heq ▸ hd)
    · rw [heq, List.mem_append, List.mem_singleton] at hd
      exact hd
  rcases hstep _ ("/DIM1/", "the_end") h with h | h
  · rcases hstep _ ("/DIM-1/", "nether") h with h | h
    · obtain ⟨de, hde, rfl⟩ := List.mem_map.1 h
      exact .inl ⟨de, hde, rfl⟩
    · exact .inr ⟨_, List.mem_cons_self, h⟩
  · exact .inr ⟨_, List.mem_cons_of_mem _ List.mem_cons_self, h⟩

theorem mem_prefixesOf {p base : String} : (p, base) ∈ prefixesOf read files ↔
    (∃ de ∈ files.filterMap levelDatDir, (de.dir ++ "/", de.base) = (p, base)) ∨
      ownDirs files base ≠ [] ∧ ∃ d ∈ dimensionsOf files base,
        (d.kind = "nether" ∨ d.kind = "the_end") ∧ (base ++ "/").toList <+: d.path.toList ∧
          p = d.path ++ "/" := by
  rw [prefixesOf, sizePrefixes, List.mem_append, List.mem_map, List.mem_flatMap]
  refine or_congr_right ?_
  constructor
  · rintro ⟨sys, hsys, hp⟩
    obtain ⟨b, hlookup⟩ := GoMap.mem_values.1 hsys
    rw [lookup_groupedSystems] at hlookup
    obtain ⟨first, hfirst, rfl⟩ := Option.map_eq_some_iff.1 hlookup
    obtain ⟨d, hd, heq⟩ := List.mem_map.1 hp
    obtain ⟨rfl, rfl⟩ := Prod.mk.inj heq
    simp only [List.mem_filter, Bool.and_eq_true, Bool.or_eq_true, beq_iff_eq,
      decide_eq_true_eq] at hd
    refine ⟨?_, d, hd.1, hd.2.1, hd.2.2, rfl⟩
    intro hnil
    rw [hnil] at hfirst
    cases hfirst
  · rintro ⟨hne, d, hd, hkind, hpre, rfl⟩
    obtain ⟨first, rest, hown⟩ := List.exists_cons_of_ne_nil hne
    have hlookup := @lookup_groupedSystems μ _ read files base
    rw [hown, List.head?_cons, Option.map_some] at hlookup
    refine ⟨_, GoMap.mem_values.2 ⟨base, hlookup⟩, List.mem_map.2 ⟨d, ?_, rfl⟩⟩
    simp only [List.mem_filter, Bool.and_eq_true, Bool.or_eq_true, beq_iff_eq, decide_eq_true_eq]
    exact ⟨hd, hkind, hpre⟩

theorem isPrefix_of_mem {p base : String} (h : (p, base) ∈ prefixesOf read files) :
    IsPrefix files p base := by
  rcases mem_prefixesOf.1 h with ⟨de, hde, heq⟩ | ⟨hne, d, hd, -, hpre, rfl⟩
  · obtain ⟨f, hf, hde⟩ := List.mem_filterMap.1 hde
    obtain ⟨rfl, rfl⟩ := Prod.mk.inj heq
    have hown := IsPrefix.own hf (levelDatDir_eq_some.1 hde)
    rwa [String.append_empty] at hown
  · rcases mem_dimensionsOf hd with ⟨de, hde, rfl⟩ | ⟨sub, hsub, rfl⟩
    · -- the path of a folder has no slash
      obtain ⟨⟨f, -, hf⟩, -⟩ := mem_ownDirs.1 hde
      refine absurd ?_ hf.slash
      apply hpre.subset
      rw [String.toList_append]
      exact List.mem_append_right _ List.mem_cons_self
    · obtain ⟨de, rest, hown⟩ := List.exists_cons_of_ne_nil hne
      have hde : de ∈ ownDirs files base := hown ▸ List.mem_cons_self
      obtain ⟨⟨f, hf, hdir⟩, rfl⟩ := mem_ownDirs.1 hde
      simp only [vanillaDimensions, List.mem_cons, List.not_mem_nil, or_false] at hsub
      have hpath (name : String) : de.base ++ ("/" ++ name) ++ "/" =
          de.base ++ "/" ++ (name ++ "/") := by
        simp only [String.append_assoc]
      rcases hsub with rfl | rfl
      · have htrim : trimSuffix "/DIM-1/" "/" = "/" ++ "DIM-1" := by decide
        rw [htrim, hpath]
        exact .inside _ hf hdir (.inl rfl)
      · have htrim : trimSuffix "/DIM1/" "/" = "/" ++ "DIM1" := by decide
        rw [htrim, hpath]
        exact .inside _ hf hdir (.inr rfl)

/-- A prefix is of one world only. -/
theorem IsPrefix.unique {p base base' : String} (h : IsPrefix files p base)
    (h' : IsPrefix files p base') : base = base' := by
  cases h with
  | @own f de hf h =>
    generalize hp : de.dir ++ "/" ++ "" = p at h'
    cases h' with
    | @own f' de' hf' h'' =>
      have hdir := (append_slash_inj h.slash h''.slash hp).1
      have hclass := h.classified
      rw [hdir, h''.classified] at hclass
      exact (Prod.mk.inj hclass).1.symm
    | @inside f' de' sub hf' h'' hsub =>
      have hrest := (append_slash_inj h.slash (not_slash_base h'') hp).2
      rcases hsub with rfl | rfl <;> exact absurd hrest (by decide)
  | @inside f de sub hf h hsub =>
    generalize hp : de.base ++ "/" ++ sub = p at h'
    cases h' with
    | @own f' de' hf' h'' =>
      have hrest := (append_slash_inj (not_slash_base h) h''.slash hp).2
      rcases hsub with rfl | rfl <;> exact absurd hrest (by decide)
    | @inside f' de' sub' hf' h'' hsub' =>
      exact (append_slash_inj (not_slash_base h) (not_slash_base h'') hp).1

/-! ## The longest prefix -/

/-- The longest prefix of a name is one of them, and no other one is longer. -/
structure IsBest (prefixes : List (String × String)) (name : String) (best : Nat × Option String) :
    Prop where
  among : ∀ base, best.2 = some base → ∃ p, (p, base) ∈ prefixes ∧ p.toList <+: name.toList ∧
    p.utf8ByteSize = best.1
  longest : ∀ pe ∈ prefixes, pe.1.toList <+: name.toList → pe.1.utf8ByteSize ≤ best.1
  zero : best.2 = none → best.1 = 0

theorem isBest_bestPrefix (prefixes : List (String × String)) (name : String) :
    IsBest prefixes name (bestPrefix prefixes name) := by
  induction prefixes using List.reverseRecOn with
  | nil => exact ⟨nofun, nofun, fun _ => rfl⟩
  | append_singleton prefixes pe ih =>
    have hstep : bestPrefix (prefixes ++ [pe]) name =
        if pe.1.toList <+: name.toList ∧ (bestPrefix prefixes name).1 < pe.1.utf8ByteSize then
          (pe.1.utf8ByteSize, some pe.2)
        else bestPrefix prefixes name := by
      rw [bestPrefix, List.foldl_append]
      rfl
    rw [hstep]
    split
    · next hlonger =>
      refine ⟨?_, ?_, nofun⟩
      · rintro base heq
        obtain rfl := Option.some.inj heq
        exact ⟨pe.1, by simp, hlonger.1, rfl⟩
      · intro qe hqe hpre
        rcases List.mem_append.1 hqe with hold | hnew
        · exact (ih.longest qe hold hpre).trans hlonger.2.le
        · rw [List.mem_singleton.1 hnew]
    · next hnot =>
      refine ⟨?_, ?_, ih.zero⟩
      · intro base heq
        obtain ⟨p, hp, hpre, hsize⟩ := ih.among base heq
        exact ⟨p, List.mem_append_left _ hp, hpre, hsize⟩
      · intro qe hqe hpre
        rcases List.mem_append.1 hqe with hold | hnew
        · exact ih.longest qe hold hpre
        · rw [List.mem_singleton.1 hnew] at hpre ⊢
          exact Nat.le_of_not_lt fun hlonger => hnot ⟨hpre, hlonger⟩

/-- Two prefixes of a name that are of the same size are the same. -/
theorem eq_of_prefix_of_size {p q name : String} (hp : p.toList <+: name.toList)
    (hq : q.toList <+: name.toList) (hsize : p.utf8ByteSize = q.utf8ByteSize) : p = q := by
  have hext (a b : String) (hab : a.toList <+: b.toList) (hle : b.utf8ByteSize ≤ a.utf8ByteSize) :
      a = b := by
    obtain ⟨rest, hrest⟩ := hab
    have hb : b = a ++ String.ofList rest := by
      apply String.toList_inj.1
      rw [String.toList_append, String.toList_ofList, hrest]
    rw [hb, String.utf8ByteSize_append] at hle
    have hzero : (String.ofList rest).utf8ByteSize = 0 := by omega
    rw [hb, String.utf8ByteSize_eq_zero_iff.1 hzero, String.append_empty]
  rcases List.prefix_or_prefix_of_prefix hp hq with h | h
  · exact hext p q h hsize.ge
  · exact (hext q p h hsize.le).symm

/-- The world of a name is one whose prefix is the longest. -/
theorem bestPrefix_eq_some {prefixes : List (String × String)} {name base : String}
    (hunique : ∀ p b b', (p, b) ∈ prefixes → (p, b') ∈ prefixes → b = b')
    (hne : ∀ pe ∈ prefixes, pe.1 ≠ "") :
    (bestPrefix prefixes name).2 = some base ↔ ∃ p, (p, base) ∈ prefixes ∧
      p.toList <+: name.toList ∧
        ∀ pe ∈ prefixes, pe.1.toList <+: name.toList → pe.1.utf8ByteSize ≤ p.utf8ByteSize := by
  have hbest := isBest_bestPrefix prefixes name
  constructor
  · intro heq
    obtain ⟨p, hp, hpre, hsize⟩ := hbest.among base heq
    refine ⟨p, hp, hpre, fun pe hpe hpre' => ?_⟩
    rw [hsize]
    exact hbest.longest pe hpe hpre'
  · rintro ⟨p, hp, hpre, hlongest⟩
    cases hfound : (bestPrefix prefixes name).2 with
    | none =>
      have hzero := hbest.longest _ hp hpre
      rw [hbest.zero hfound, Nat.le_zero, String.utf8ByteSize_eq_zero_iff] at hzero
      exact absurd hzero (hne _ hp)
    | some base' =>
      obtain ⟨q, hq, hpre', hsize⟩ := hbest.among base' hfound
      have hle := hbest.longest _ hp hpre
      have hge := hlongest _ hq hpre'
      rw [← hsize] at hle
      obtain rfl := eq_of_prefix_of_size hpre hpre' (Nat.le_antisymm hle hge)
      rw [hunique p base base' hp hq]

theorem prefixesOf_unique (p base base' : String) (h : (p, base) ∈ prefixesOf read files)
    (h' : (p, base') ∈ prefixesOf read files) : base = base' :=
  (isPrefix_of_mem h).unique (isPrefix_of_mem h')

theorem prefixesOf_ne_empty (pe : String × String) (h : pe ∈ prefixesOf read files) :
    pe.1 ≠ "" := by
  obtain ⟨p, base⟩ := pe
  have hslash : '/' ∈ p.toList := by
    cases isPrefix_of_mem h with
    | own hf hde => simp
    | inside sub hf hde hsub => simp
  rintro rfl
  simp at hslash

/-! ## Another order -/

theorem mem_prefixesOf_perm (h : files.Perm files') {p base : String} :
    (p, base) ∈ prefixesOf read files ↔ (p, base) ∈ prefixesOf read files' := by
  have hown : ownDirs files base ≠ [] ↔ ownDirs files' base ≠ [] := by
    rw [← List.length_pos_iff, ← List.length_pos_iff, (perm_ownDirs h base).length_eq]
  rw [mem_prefixesOf, mem_prefixesOf, hown]
  simp only [(h.filterMap levelDatDir).mem_iff, (perm_dimensionsOf h base).mem_iff]

theorem countsFor_perm (h : files.Perm files') (f : ZipFile) :
    countsFor (prefixesOf read files) f = countsFor (prefixesOf read files') f := by
  have hbest : (bestPrefix (prefixesOf read files) f.name).2 =
      (bestPrefix (prefixesOf read files') f.name).2 := by
    apply Option.ext
    intro base
    rw [bestPrefix_eq_some prefixesOf_unique prefixesOf_ne_empty,
      bestPrefix_eq_some prefixesOf_unique prefixesOf_ne_empty]
    simp only [Prod.forall, mem_prefixesOf_perm h]
  unfold countsFor
  rw [hbest]

theorem perm_countedFiles (h : files.Perm files') (base : String) :
    (countedFiles (prefixesOf read files) files base).Perm
      (countedFiles (prefixesOf read files') files' base) := by
  unfold countedFiles
  simp only [countsFor_perm h]
  exact h.filter _

theorem addSizes_perm {n : Int64} (h : files.Perm files') : addSizes n files = addSizes n files' := by
  have : RightCommutative fun (n : Int64) (f : ZipFile) => n + f.zipEntrySize :=
    ⟨fun n f g => by rw [Int64.add_assoc, Int64.add_assoc, Int64.add_comm f.zipEntrySize]⟩
  exact h.foldl_eq n

theorem newest_perm {t : Int} (h : files.Perm files') : newest t files = newest t files' := by
  have : RightCommutative fun (t : Int) (f : ZipFile) =>
      if t < f.modified then f.modified else t := by
    constructor
    intro t f g
    simp only [← max_def_lt]
    exact max_right_comm t f.modified g.modified
  exact h.foldl_eq t

/-- What is found by its name, where no name is there twice. -/
theorem find?_name_eq_some {l : List ZipFile} (hnames : (l.map ZipFile.name).Nodup) {name : String}
    {f : ZipFile} : l.find? (fun f => f.name == name) = some f ↔ f ∈ l ∧ f.name = name := by
  constructor
  · intro h
    exact ⟨List.mem_of_find?_eq_some h, by simpa using List.find?_some h⟩
  · rintro ⟨hf, rfl⟩
    induction l with
    | nil => cases hf
    | cons g l ih =>
      obtain ⟨hg, hrest⟩ := List.nodup_cons.1 hnames
      rcases List.mem_cons.1 hf with rfl | hf
      · simp
      · have hne : g.name ≠ f.name := fun heq => hg (heq ▸ List.mem_map_of_mem hf)
        rw [List.find?_cons_of_neg (by simpa using hne)]
        exact ih hrest hf

omit [Inhabited μ] in
theorem zippedLevelName_perm (hnames : (files.map ZipFile.name).Nodup) (h : files.Perm files') :
    zippedLevelName read files = zippedLevelName read files' := by
  have hnames' : (files'.map ZipFile.name).Nodup := (h.map _).nodup_iff.1 hnames
  have hsame : files.find? (fun f => f.name == "server.properties") =
      files'.find? fun f => f.name == "server.properties" := by
    apply Option.ext
    intro f
    rw [find?_name_eq_some hnames, find?_name_eq_some hnames', h.mem_iff]
  unfold zippedLevelName
  rw [hsame]

/-! ## The claims of an archive -/

/-- The same system, but for the order of its dimensions. -/
structure SameWorld (s s' : WorldSystem μ) : Prop where
  name : s.name = s'.name
  active : s.active = s'.active
  totalSize : s.totalSize = s'.totalSize
  modified : s.modified = s'.modified
  dimensions : s.dimensions.Perm s'.dimensions
  info : s.info = s'.info

/-- The same systems, in whatever order. -/
def SameWorlds (r r' : List (WorldSystem μ)) : Prop :=
  (∀ s ∈ r, ∃ s' ∈ r', SameWorld s s') ∧ ∀ s' ∈ r', ∃ s ∈ r, SameWorld s s'

/-- A file is in a folder at the top that holds a `level.dat`. -/
def UnderWorld (files : List ZipFile) (f : ZipFile) : Prop :=
  ∃ g ∈ files, ∃ dir : String, '/' ∉ dir.toList ∧ g.name = dir ++ "/level.dat" ∧
    (dir ++ "/").toList <+: f.name.toList

/-- Every total is that of the files of its system, each file is of one system at most, and each
file of a world of one. -/
def CountedOnce (files : List ZipFile) (r : List (WorldSystem μ)) : Prop :=
  (r.map WorldSystem.name).Nodup ∧ ∃ owner : ZipFile → Option String,
    (∀ s ∈ r, s.totalSize = addSizes 0 (files.filter fun f => owner f == some s.name)) ∧
      ∀ f ∈ files, f.isDir = false → UnderWorld files f → ∃ s ∈ r, owner f = some s.name

/-- The systems of an archive are those of every order of its entries, no kind of dimension is
in one twice, and each file of a world counts for one of them. -/
structure OrderFree (read : Reading μ) (files : List ZipFile) : Prop where
  same : ∀ files', files.Perm files' →
    SameWorlds (worldsFromServerZip read files) (worldsFromServerZip read files')
  kinds : ∀ s ∈ worldsFromServerZip read files, (s.dimensions.map ZippedDimension.kind).Nodup
  counted : CountedOnce files (worldsFromServerZip read files)

/-- A world has a `level.dat` that says something, and another folder with one. -/
def Shadowed (read : Reading μ) (files : List ZipFile) : Prop :=
  ∃ base, ∃ de ∈ ownDirs files base, ∃ de' ∈ ownDirs files base,
    de.kind ≠ "overworld" ∧ de'.info read ≠ default

section

omit [Inhabited μ]

theorem SameWorld.symm {s s' : WorldSystem μ} (h : SameWorld s s') : SameWorld s' s :=
  ⟨h.name.symm, h.active.symm, h.totalSize.symm, h.modified.symm, h.dimensions.symm, h.info.symm⟩

end

/-- The info of a folder that is not the world's own is empty. -/
theorem info_of_sibling {base : String} {de : LevelDatDir} (hde : de ∈ ownDirs files base)
    (hkind : de.kind ≠ "overworld") : de.info read = default := by
  obtain ⟨⟨f, -, hf⟩, -⟩ := mem_ownDirs.1 hde
  rw [LevelDatDir.info, hf.levelDat, if_neg hkind]
  rfl

/-- Where nothing is shadowed, every folder of a world says the same. -/
theorem info_eq_of_not_shadowed (hnames : (files.map ZipFile.name).Nodup)
    (h : ¬ Shadowed read files) {base : String} {de de' : LevelDatDir}
    (hde : de ∈ ownDirs files base) (hde' : de' ∈ ownDirs files base) :
    de.info read = de'.info read := by
  by_cases hkind : de.kind = "overworld"
  · by_cases hkind' : de'.kind = "overworld"
    · have heq : de = de' := List.inj_on_of_nodup_map (nodup_ownDirs hnames base) hde hde'
        (hkind.trans hkind'.symm)
      rw [heq]
    · have hdefault : de.info read = default := by
        by_contra hne
        exact h ⟨base, de', hde', de, hde, hkind', hne⟩
      rw [hdefault, info_of_sibling hde' hkind']
  · have hdefault : de'.info read = default := by
      by_contra hne
      exact h ⟨base, de, hde, de', hde', hkind, hne⟩
    rw [hdefault, info_of_sibling hde hkind]

theorem sameWorld_systemOf (hnames : (files.map ZipFile.name).Nodup) (h : files.Perm files')
    {base : String} {first first' : LevelDatDir} (hinfo : first.info read = first'.info read) :
    SameWorld (systemOf read files base first) (systemOf read files' base first') := by
  refine ⟨rfl, ?_, ?_, ?_, perm_dimensionsOf h base, hinfo⟩
  · simp only [systemOf, zippedLevelName_perm hnames h]
  · exact addSizes_perm (perm_countedFiles h base)
  · exact newest_perm (perm_countedFiles h base)

/-- Half of the sameness, for an order of which nothing is shadowed. -/
theorem exists_sameWorld (hnames : (files.map ZipFile.name).Nodup) (h : files.Perm files')
    (hshadow : ¬ Shadowed read files) {s : WorldSystem μ}
    (hs : s ∈ worldsFromServerZip read files) :
    ∃ s' ∈ worldsFromServerZip read files', SameWorld s s' := by
  obtain ⟨base, first, hfirst, rfl⟩ := mem_worldsFromServerZip.1 hs
  have hmem : first ∈ ownDirs files base := List.mem_of_head? hfirst
  have hne : ownDirs files' base ≠ [] := List.ne_nil_of_mem ((perm_ownDirs h base).mem_iff.1 hmem)
  obtain ⟨first', rest, hown⟩ := List.exists_cons_of_ne_nil hne
  have hmem' : first' ∈ ownDirs files base := by
    rw [(perm_ownDirs h base).mem_iff, hown]
    exact List.mem_cons_self
  refine ⟨systemOf read files' base first', mem_worldsFromServerZip.2 ⟨base, first', ?_, rfl⟩, ?_⟩
  · rw [hown, List.head?_cons]
  · exact sameWorld_systemOf hnames h (info_eq_of_not_shadowed hnames hshadow hmem hmem')

theorem shadowed_perm (h : files.Perm files') : Shadowed read files ↔ Shadowed read files' := by
  unfold Shadowed
  simp only [(perm_ownDirs h _).mem_iff]

/-- The systems of an archive have different names. -/
theorem nodup_names (read : Reading μ) (files : List ZipFile) :
    ((worldsFromServerZip read files).map WorldSystem.name).Nodup := by
  let systems := files.foldl (countFile (prefixesOf read files)) (groupedSystems read files)
  have hkeys : (worldsFromServerZip read files).map WorldSystem.name = systems.keys := by
    change ((GoMap.values systems).map _).map _ = systems.entries.map Sigma.fst
    rw [GoMap.values, List.map_map, List.map_map]
    apply List.map_congr_left
    rintro ⟨base, sys⟩ he
    have hlookup : systems.lookup base = some sys := AList.mem_lookup_iff.2 he
    rw [lookup_countFile, lookup_groupedSystems] at hlookup
    obtain ⟨_, hgrouped, rfl⟩ := Option.map_eq_some_iff.1 hlookup
    obtain ⟨_, -, rfl⟩ := Option.map_eq_some_iff.1 hgrouped
    rfl
  rw [hkeys]
  exact systems.nodupKeys

/-- A file in a folder of a world counts for a system. -/
theorem exists_countsFor {f : ZipFile} (hdir : f.isDir = false) (hunder : UnderWorld files f) :
    ∃ s ∈ worldsFromServerZip read files,
      countsFor (prefixesOf read files) f = some s.name := by
  obtain ⟨g, hg, dir, hslash, hname, hpre⟩ := hunder
  have hde : ∃ base kind, IsLevelDatDir g
      ⟨dir, kind, base, if kind = "overworld" then some g else none⟩ :=
    ⟨(classifyWorldDir dir).1, (classifyWorldDir dir).2, hname, hslash, rfl, rfl⟩
  obtain ⟨base, kind, hde⟩ := hde
  have hmem : (dir ++ "/", base) ∈ prefixesOf read files :=
    mem_prefixesOf.2 (.inl ⟨_, List.mem_filterMap.2 ⟨g, hg, levelDatDir_eq_some.2 hde⟩, rfl⟩)
  have hbest := isBest_bestPrefix (prefixesOf read files) f.name
  cases hfound : (bestPrefix (prefixesOf read files) f.name).2 with
  | none =>
    have hzero := hbest.longest _ hmem hpre
    rw [hbest.zero hfound, Nat.le_zero, String.utf8ByteSize_eq_zero_iff] at hzero
    exact absurd hzero (prefixesOf_ne_empty _ hmem)
  | some owner =>
    obtain ⟨p, hp, -, -⟩ := hbest.among owner hfound
    have hown : ∃ de, de ∈ ownDirs files owner := by
      cases isPrefix_of_mem hp with
      | own hf hde => exact ⟨_, mem_ownDirs.2 ⟨⟨_, hf, hde⟩, rfl⟩⟩
      | inside sub hf hde hsub => exact ⟨_, mem_ownDirs.2 ⟨⟨_, hf, hde⟩, rfl⟩⟩
    obtain ⟨de, hde⟩ := hown
    obtain ⟨first, rest, hfirst⟩ := List.exists_cons_of_ne_nil (List.ne_nil_of_mem hde)
    refine ⟨systemOf read files owner first, mem_worldsFromServerZip.2 ⟨owner, first, ?_, rfl⟩, ?_⟩
    · rw [hfirst, List.head?_cons]
    · rw [countsFor, if_neg (by simp [hdir]), hfound]
      rfl

theorem countedOnce (read : Reading μ) (files : List ZipFile) :
    CountedOnce files (worldsFromServerZip read files) := by
  refine ⟨nodup_names read files, countsFor (prefixesOf read files), ?_, ?_⟩
  · intro s hs
    obtain ⟨base, first, -, rfl⟩ := mem_worldsFromServerZip.1 hs
    rfl
  · intro f _ hdir hunder
    exact exists_countsFor hdir hunder

/-- The folder that comes first in an archive says what its world is. -/
theorem head?_ownDirs_cons {base : String} {f : ZipFile} {de : LevelDatDir}
    (hf : IsLevelDatDir f de) (hbase : de.base = base) :
    (ownDirs (f :: files) base).head? = some de := by
  rw [ownDirs, List.filterMap_cons, levelDatDir_eq_some.2 hf]
  simp [hbase]

/-- The world of an archive says what each of its folders says, if the order does not matter. -/
theorem info_of_orderFree (h : OrderFree read files) {base : String} {s : WorldSystem μ}
    (hs : s ∈ worldsFromServerZip read files) (hname : s.name = base) {de : LevelDatDir}
    (hde : de ∈ ownDirs files base) : s.info = de.info read := by
  obtain ⟨⟨f, hf, hdir⟩, hbase⟩ := mem_ownDirs.1 hde
  obtain ⟨s', hs', hsame⟩ := (h.same _ (List.perm_cons_erase hf)).1 s hs
  obtain ⟨base', first, hfirst, rfl⟩ := mem_worldsFromServerZip.1 hs'
  obtain rfl : base' = base := hsame.name.symm.trans hname
  rw [head?_ownDirs_cons hdir hbase] at hfirst
  obtain rfl := Option.some.inj hfirst
  exact hsame.info

/-- The worlds of an archive do not depend on the order of its entries exactly when no world with
a `level.dat` that says something has another folder with one. -/
theorem orderFree_iff (read : Reading μ) (hnames : (files.map ZipFile.name).Nodup) :
    OrderFree read files ↔ ¬ Shadowed read files := by
  constructor
  · rintro h ⟨base, de, hde, de', hde', hkind, hinfo⟩
    obtain ⟨first, rest, hown⟩ := List.exists_cons_of_ne_nil (List.ne_nil_of_mem hde)
    have hs : systemOf read files base first ∈ worldsFromServerZip read files :=
      mem_worldsFromServerZip.2 ⟨base, first, by rw [hown, List.head?_cons], rfl⟩
    apply hinfo
    rw [← info_of_orderFree h hs rfl hde', info_of_orderFree h hs rfl hde]
    exact info_of_sibling hde hkind
  · intro hshadow
    refine ⟨fun files' h => ⟨fun s hs => exists_sameWorld hnames h hshadow hs, fun s' hs' => ?_⟩,
      fun s hs => ?_, countedOnce read files⟩
    · have hnames' : (files'.map ZipFile.name).Nodup := (h.map _).nodup_iff.1 hnames
      obtain ⟨s, hs, hsame⟩ :=
        exists_sameWorld hnames' h.symm (fun h' => hshadow ((shadowed_perm h).2 h')) hs'
      exact ⟨s, hs, hsame.symm⟩
    · obtain ⟨base, first, -, rfl⟩ := mem_worldsFromServerZip.1 hs
      exact nodup_dimensionsOf hnames base

/-! ## A folder of the nether that comes first -/

/-- Every `level.dat` says how many bytes it has, and the active world is `world`. -/
def lengthReading : Reading Nat :=
  ⟨fun f => some f.content.length, fun _ => some "world"⟩

/-- Two folders of one world, the nether first. -/
def netherFirst : List ZipFile :=
  [{ name := "world_nether/level.dat", content := [1] },
    { name := "world/level.dat", content := [1, 2] }]

/-- The world says nothing when the folder of its nether comes first. -/
theorem not_orderFree_netherFirst :
    (worldsFromServerZip lengthReading netherFirst).map WorldSystem.info = [0] ∧
      (worldsFromServerZip lengthReading netherFirst.reverse).map WorldSystem.info = [2] ∧
        ¬ OrderFree lengthReading netherFirst := by
  have hfirst : (worldsFromServerZip lengthReading netherFirst).map WorldSystem.info = [0] := by
    decide +kernel
  have hlast : (worldsFromServerZip lengthReading netherFirst.reverse).map WorldSystem.info =
      [2] := by
    decide +kernel
  refine ⟨hfirst, hlast, fun h => ?_⟩
  have hmem : (0 : Nat) ∈ (worldsFromServerZip lengthReading netherFirst).map WorldSystem.info := by
    rw [hfirst]
    exact List.mem_cons_self
  obtain ⟨s, hs, hzero⟩ := List.mem_map.1 hmem
  obtain ⟨s', hs', hsame⟩ := (h.same _ (List.reverse_perm netherFirst).symm).1 s hs
  have hinfo : s'.info ∈ [2] := hlast ▸ List.mem_map_of_mem hs'
  rw [← hsame.info, hzero] at hinfo
  exact absurd hinfo (by decide)

/-- A world alone. -/
theorem orderFree_iff_alone :
    ¬ Shadowed lengthReading [{ name := "world/level.dat", content := [1, 2] }] ∧
      OrderFree lengthReading [{ name := "world/level.dat", content := [1, 2] }] := by
  have hshadow : ¬ Shadowed lengthReading [{ name := "world/level.dat", content := [1, 2] }] := by
    rintro ⟨base, de, hde, -, -, hkind, -⟩
    obtain ⟨⟨f, hf, hdir⟩, -⟩ := mem_ownDirs.1 hde
    rw [List.mem_singleton.1 hf, ← levelDatDir_eq_some] at hdir
    have hknown : levelDatDir { name := "world/level.dat", content := [1, 2] } =
        some ⟨"world", "overworld", "world",
          some { name := "world/level.dat", content := [1, 2] }⟩ := by
      decide +kernel
    rw [hknown] at hdir
    obtain rfl := Option.some.inj hdir
    exact hkind rfl
  exact ⟨hshadow, (orderFree_iff lengthReading (by simp)).2 hshadow⟩

end Konnekt.Backup
