import Konnekt.Mods.Rescan
import Konnekt.Run.Labelled
import Mathlib.Data.List.Nodup

/-!
# The manifest and the jars on disk

A rescan trusts a row by its source and tells rows by their bare file name, and a folder
signature decides whether it looks at all. As long as every jar it passes over is the one
its row was written for, a rescan that returns leaves a manifest that describes the jars.
-/

namespace Konnekt.Mods

open Go

variable {β : Type} {setting : Setting β} {around : Around}

/-! ## Rows that describe jars -/

/-- Source, project and version of the bytes of a jar, as the provider answers. -/
def answer (setting : Setting β) (jar : JarContent β) : String × String × String × String :=
  match setting.provider.versionByHash (setting.sha512 jar.data) with
  | none => ("local", "", "", "")
  | some version =>
    ("modrinth", version.projectID, version.versionNumber,
      if isPrimary setting version jar (setting.sha512 jar.data) then version.id else "")

/-- The row has what the provider answers for the jar. -/
def Describes (setting : Setting β) (jar : JarContent β) (row : ModManifestItem) : Prop :=
  (row.source, row.projectID, row.versionNumber, row.versionID) = answer setting jar

/-- Every jar has exactly one row, which describes it and is no other jar's. -/
def Described (setting : Setting β) (jars : List (JarContent β)) (items : List ModManifestItem) :
    Prop :=
  ∀ jar ∈ jars,
    (∃ row, items.filter (·.fileName = jar.name) = [row] ∧ Describes setting jar row) ∧
    ∀ other ∈ jars, other.name = jar.name → other.folder = jar.folder

theorem identifiedItem_describes (loader : String) (existing : Option ModManifestItem)
    (jar : JarFile β) :
    Describes setting jar.toJarContent
      (identifiedItem setting loader existing jar (setting.sha512 jar.data)) := by
  unfold Describes answer identifiedItem
  cases setting.provider.versionByHash (setting.sha512 jar.data) with
  | none => rfl
  | some version => rfl

@[simp] theorem identifiedItem_fileName (loader : String) (existing : Option ModManifestItem)
    (jar : JarFile β) (hash : String) :
    (identifiedItem setting loader existing jar hash).fileName = jar.name := by
  unfold identifiedItem
  cases setting.provider.versionByHash hash with
  | none => rfl
  | some version => rfl

/-! ## Rows by their file names -/

theorem upsert_names (row : ModManifestItem) (items : List ModManifestItem) :
    (upsert row items).map (·.fileName) =
      if row.fileName ∈ items.map (·.fileName) then items.map (·.fileName)
      else items.map (·.fileName) ++ [row.fileName] := by
  induction items with
  | nil => rfl
  | cons it items ih =>
    unfold upsert
    by_cases heq : it.fileName = row.fileName
    · rw [if_pos heq, List.map_cons, List.map_cons, heq, if_pos List.mem_cons_self]
    · rw [if_neg heq, List.map_cons, ih, List.map_cons]
      by_cases hmem : row.fileName ∈ items.map (·.fileName)
      · rw [if_pos hmem, if_pos (List.mem_cons_of_mem _ hmem)]
      · have hnot : row.fileName ∉ it.fileName :: items.map (·.fileName) := by
          rw [List.mem_cons, not_or]
          exact ⟨Ne.symm heq, hmem⟩
        rw [if_neg hmem, if_neg hnot, List.cons_append]

theorem upsert_nodup (row : ModManifestItem) {items : List ModManifestItem}
    (h : (items.map (·.fileName)).Nodup) : ((upsert row items).map (·.fileName)).Nodup := by
  rw [upsert_names]
  split_ifs with hmem
  · exact h
  · apply h.append (List.nodup_singleton _)
    rw [List.disjoint_singleton]
    exact hmem

theorem filter_eq_nil_of_not_mem {name : JarName} {items : List ModManifestItem}
    (h : name ∉ items.map (·.fileName)) : items.filter (·.fileName = name) = [] := by
  rw [List.filter_eq_nil_iff]
  intro it hit heq
  exact h (of_decide_eq_true heq ▸ List.mem_map_of_mem hit)

/-- An upsert makes its row the one of its name, and leaves the rows of every other name. -/
theorem filter_upsert (row : ModManifestItem) {items : List ModManifestItem}
    (h : (items.map (·.fileName)).Nodup) (name : JarName) :
    (upsert row items).filter (·.fileName = name) =
      if row.fileName = name then [row] else items.filter (·.fileName = name) := by
  induction items with
  | nil =>
    by_cases hname : row.fileName = name
    · simp [upsert, hname]
    · simp [upsert, hname]
  | cons it items ih =>
    obtain ⟨hnew, hnodup⟩ := List.nodup_cons.1 h
    unfold upsert
    by_cases heq : it.fileName = row.fileName
    · rw [if_pos heq, List.filter_cons, List.filter_cons, heq]
      by_cases hname : row.fileName = name
      · have hnil : items.filter (·.fileName = name) = [] := by
          apply filter_eq_nil_of_not_mem
          rw [← hname, ← heq]
          exact hnew
        rw [if_pos (decide_eq_true hname), if_pos hname, hnil]
      · rw [if_neg (by simpa using hname), if_neg hname, if_neg (by simpa using hname)]
    · rw [if_neg heq, List.filter_cons, ih hnodup]
      by_cases hname : row.fileName = name
      · have hne : it.fileName ≠ name := hname ▸ heq
        rw [if_neg (by simpa using hne), if_pos hname, if_pos hname]
      · rw [if_neg hname, if_neg hname, List.filter_cons]

/-- What a pass writes: for a name it has a row for that row, for any other what was there. -/
theorem filter_foldl_upsert {rows items : List ModManifestItem}
    (hrows : (rows.map (·.fileName)).Nodup) (hitems : (items.map (·.fileName)).Nodup)
    (name : JarName) :
    ((rows.foldl (fun items row => upsert row items) items).filter (·.fileName = name) =
      if name ∈ rows.map (·.fileName) then rows.filter (·.fileName = name)
      else items.filter (·.fileName = name)) ∧
    ((rows.foldl (fun items row => upsert row items) items).map (·.fileName)).Nodup := by
  induction rows generalizing items with
  | nil => exact ⟨rfl, hitems⟩
  | cons row rows ih =>
    obtain ⟨hnew, hnodup⟩ := List.nodup_cons.1 hrows
    obtain ⟨hfilter, hkept⟩ := ih hnodup (upsert_nodup row hitems)
    refine ⟨?_, hkept⟩
    rw [List.foldl_cons, hfilter, filter_upsert row hitems, List.map_cons, List.filter_cons]
    by_cases hname : row.fileName = name
    · subst hname
      rw [if_neg hnew, if_pos rfl, if_pos List.mem_cons_self, if_pos (decide_eq_true rfl),
        filter_eq_nil_of_not_mem hnew]
    · have hmem : name ∈ row.fileName :: rows.map (·.fileName) ↔
          name ∈ rows.map (·.fileName) := by
        rw [List.mem_cons, or_iff_right (Ne.symm hname)]
      have hrow : ¬ decide (row.fileName = name) = true := by simpa using hname
      rw [if_neg hname, if_neg hrow]
      exact if_congr hmem.symm rfl rfl

/-- Where no two rows share a name, a row is the only one of its name. -/
theorem filter_of_mem {items : List ModManifestItem} {row : ModManifestItem}
    (h : (items.map (·.fileName)).Nodup) (hmem : row ∈ items) :
    items.filter (·.fileName = row.fileName) = [row] := by
  have hunique : ∀ it ∈ items.filter (·.fileName = row.fileName), it = row := by
    intro it hit
    obtain ⟨hit, hname⟩ := List.mem_filter.1 hit
    exact List.inj_on_of_nodup_map h hit hmem (of_decide_eq_true hname)
  have hrow : row ∈ items.filter (·.fileName = row.fileName) :=
    List.mem_filter.2 ⟨hmem, decide_eq_true rfl⟩
  have hnodup : (items.filter (·.fileName = row.fileName)).Nodup :=
    (List.Nodup.of_map _ h).filter _
  cases hl : items.filter (·.fileName = row.fileName) with
  | nil => exact absurd (hl ▸ hrow) List.not_mem_nil
  | cons it rest =>
    rw [hl] at hunique hnodup
    obtain rfl := hunique it List.mem_cons_self
    cases rest with
    | nil => rfl
    | cons it' rest =>
      have heq := hunique it' (List.mem_cons_of_mem _ List.mem_cons_self)
      exact absurd (heq ▸ List.mem_cons_self) (List.nodup_cons.1 hnodup).1

theorem rowOf_spec {items : List ModManifestItem} {name : JarName} {row : ModManifestItem}
    (h : rowOf items name = some row) : row ∈ items ∧ row.fileName = name :=
  ⟨List.mem_reverse.1 (List.mem_of_find?_eq_some h), by simpa using List.find?_some h⟩

theorem exists_row_of_accountsFor {manifest : ModManifest} {name : JarName}
    (h : accountsFor manifest name = true) : ∃ row, rowOf manifest.items name = some row := by
  unfold accountsFor at h
  cases hrow : rowOf manifest.items name with
  | none =>
    rw [hrow] at h
    cases h
  | some row => exact ⟨row, rfl⟩

/-! ## One pass -/

/-- The manifest a pass starts from. -/
def ModService.manifest (s : ModService β) : ModManifest :=
  s.saved.getD { version := modManifestVersion, items := [] }

/-- The rows of the manifest. -/
def ModService.items (s : ModService β) : List ModManifestItem := s.manifest.items

/-- The jars, as far as a row is about them. -/
def ModService.contents (s : ModService β) : List (JarContent β) :=
  s.scanJarFiles.map (·.toJarContent)

/-- A pass can make the manifest describe the jars: no two of them and no two rows share a name,
the rows it goes by are those of the jars as they are, and the others can be hashed. -/
structure Passable (setting : Setting β) (around : Around) (s : ModService β) : Prop where
  names : (s.scanJarFiles.map (·.name)).Nodup
  rows : (s.items.map (·.fileName)).Nodup
  accounted : ∀ jar ∈ s.scanJarFiles, accountsFor s.manifest jar.name = true →
    ∀ row, rowOf s.items jar.name = some row → Describes setting jar.toJarContent row
  readable : ∀ jar ∈ s.scanJarFiles, accountsFor s.manifest jar.name = false →
    (jar.folder, jar.name) ∉ around.unreadable
  /-- A hash that is remembered for a path, time and size is that of the jar. -/
  hashed : ∀ jar ∈ s.scanJarFiles, accountsFor s.manifest jar.name = false →
    ∀ hash, s.jarHashCache (jarCacheKey jar) = some hash → hash = setting.sha512 jar.data

theorem fileSHA512Cached_spec {jar : JarFile β} {cache : JarCacheKey → Option String}
    (h : ∀ hash, cache (jarCacheKey jar) = some hash → hash = setting.sha512 jar.data) :
    (fileSHA512Cached setting jar cache).1 = setting.sha512 jar.data ∧
      ∀ key, key ≠ jarCacheKey jar →
        (fileSHA512Cached setting jar cache).2 key = cache key := by
  unfold fileSHA512Cached
  cases hcache : cache (jarCacheKey jar) with
  | none => exact ⟨rfl, fun key hkey => Function.update_of_ne hkey _ _⟩
  | some hash => exact ⟨h hash hcache, fun _ _ => rfl⟩

theorem jarCacheKey_ne {jar jar' : JarFile β} (h : jar.name ≠ jar'.name) :
    jarCacheKey jar ≠ jarCacheKey jar' := by
  intro heq
  have hpath := congrArg Prod.fst heq
  rw [jarCacheKey, jarCacheKey, jarPath_inj] at hpath
  exact h hpath.2

/-- The jars that are looked up are those without a row to go by, each with the hash it has. -/
theorem candidates_eq {manifest : ModManifest} {jars : List (JarFile β)}
    {cache : JarCacheKey → Option String} (hnames : (jars.map (·.name)).Nodup)
    (hreadable : ∀ jar ∈ jars, accountsFor manifest jar.name = false →
      (jar.folder, jar.name) ∉ around.unreadable)
    (hhashed : ∀ jar ∈ jars, accountsFor manifest jar.name = false →
      ∀ hash, cache (jarCacheKey jar) = some hash → hash = setting.sha512 jar.data) :
    (candidates setting around manifest jars cache).1 =
      (jars.filter fun jar => ! accountsFor manifest jar.name).map fun jar =>
        (jar, setting.sha512 jar.data) := by
  induction jars generalizing cache with
  | nil => rfl
  | cons jar jars ih =>
    obtain ⟨hnew, hnodup⟩ := List.nodup_cons.1 hnames
    have hrest : ∀ jar' ∈ jars, jar' ∈ jar :: jars := fun _ h => List.mem_cons_of_mem _ h
    unfold candidates
    cases hknown : accountsFor manifest jar.name with
    | true =>
      rw [List.filter_cons, hknown]
      exact ih hnodup (fun j hj => hreadable j (hrest j hj)) fun j hj => hhashed j (hrest j hj)
    | false =>
      obtain ⟨hhash, hother⟩ := fileSHA512Cached_spec (hhashed jar List.mem_cons_self hknown)
      have hlater : ∀ j ∈ jars, accountsFor manifest j.name = false → ∀ hash,
          (fileSHA512Cached setting jar cache).2 (jarCacheKey j) = some hash →
          hash = setting.sha512 j.data := by
        intro j hj hj' hash hsome
        have hname : j.name ≠ jar.name := by
          intro heq
          exact hnew (List.mem_map.2 ⟨j, hj, heq⟩)
        rw [hother _ (jarCacheKey_ne hname)] at hsome
        exact hhashed j (hrest j hj) hj' hash hsome
      have htail := ih hnodup (fun j hj => hreadable j (hrest j hj)) hlater
      rw [List.filter_cons, hknown]
      simp only [Bool.false_eq_true, ↓reduceIte, Bool.not_false, List.map_cons,
        if_neg (hreadable jar List.mem_cons_self hknown), htail, hhash]

/-- The rows a pass writes describe the jars it was made for, and the others keep theirs. -/
theorem Passable.described {s : ModService β} (h : Passable setting around s) (loader : String)
    (existing : JarFile β → Option ModManifestItem) :
    Described setting s.contents
      (((s.scanJarFiles.filter fun jar => ! accountsFor s.manifest jar.name).map fun jar =>
        identifiedItem setting loader (existing jar) jar (setting.sha512 jar.data)).foldl
          (fun items row => upsert row items) s.items) := by
  generalize hrows : ((s.scanJarFiles.filter fun jar => ! accountsFor s.manifest jar.name).map
    fun jar => identifiedItem setting loader (existing jar) jar (setting.sha512 jar.data)) = rows
  have hnames : rows.map (·.fileName) =
      (s.scanJarFiles.filter fun jar => ! accountsFor s.manifest jar.name).map (·.name) := by
    rw [← hrows, List.map_map]
    exact List.map_congr_left fun jar _ => identifiedItem_fileName _ _ _ _
  have hnodup : (rows.map (·.fileName)).Nodup := by
    rw [hnames]
    exact h.names.sublist (List.filter_sublist.map _)
  intro content hcontent
  obtain ⟨jar, hjar, rfl⟩ := List.mem_map.1 hcontent
  constructor
  · rw [(filter_foldl_upsert hnodup h.rows jar.name).1]
    cases hknown : accountsFor s.manifest jar.name with
    | true =>
      have hnot : jar.name ∉ rows.map (·.fileName) := by
        rw [hnames]
        intro hmem
        obtain ⟨other, hother, heq⟩ := List.mem_map.1 hmem
        have hunknown := (List.mem_filter.1 hother).2
        rw [heq, hknown] at hunknown
        cases hunknown
      obtain ⟨row, hrow⟩ := exists_row_of_accountsFor hknown
      obtain ⟨hmem, hname⟩ := rowOf_spec hrow
      refine ⟨row, ?_, h.accounted jar hjar hknown row hrow⟩
      rw [if_neg hnot, ← hname]
      exact filter_of_mem h.rows hmem
    | false =>
      have hfound : jar ∈ s.scanJarFiles.filter fun jar => ! accountsFor s.manifest jar.name :=
        List.mem_filter.2 ⟨hjar, by rw [hknown]; rfl⟩
      have hin : jar.name ∈ rows.map (·.fileName) := by
        rw [hnames]
        exact List.mem_map_of_mem hfound
      refine ⟨identifiedItem setting loader (existing jar) jar (setting.sha512 jar.data), ?_,
        identifiedItem_describes loader (existing jar) jar⟩
      have hrow : identifiedItem setting loader (existing jar) jar (setting.sha512 jar.data) ∈
          rows := by
        rw [← hrows]
        exact List.mem_map_of_mem hfound
      have honly := filter_of_mem hnodup hrow
      rw [identifiedItem_fileName] at honly
      rw [if_pos hin]
      exact honly
  · intro other hother heq
    obtain ⟨jar', hjar', rfl⟩ := List.mem_map.1 hother
    rw [List.inj_on_of_nodup_map h.names hjar' hjar heq]

/-- A pass that returns leaves the folders as they are and the jars described. -/
theorem Passable.identifyUnknown {s s' : ModService β} {changed : Bool}
    (h : Passable setting around s)
    (hpass : identifyUnknown setting around s = (.ok changed, s')) :
    s'.mods = s.mods ∧ s'.plugins = s.plugins ∧ s'.lastSig = s.lastSig ∧
      Described setting s.contents s'.items := by
  unfold Mods.identifyUnknown at hpass
  cases hloader : around.loader with
  | error e =>
    rw [hloader] at hpass
    cases hpass
  | ok loader =>
    have hdescribed := h.described loader fun jar => rowOf s.items jar.name
    have hfound := @candidates_eq β setting around _ _ _ h.names h.readable h.hashed
    rcases hc : candidates setting around s.manifest s.scanJarFiles s.jarHashCache with
      ⟨found, cache⟩
    rw [hc] at hfound
    dsimp only at hfound
    have hmanifest : s.saved.getD { version := modManifestVersion, items := [] } = s.manifest := rfl
    simp only [hloader, hmanifest, hc] at hpass
    cases hempty : found.isEmpty with
    | true =>
      have hnone : (s.scanJarFiles.filter fun jar => ! accountsFor s.manifest jar.name) = [] := by
        rw [← List.map_eq_nil_iff, ← hfound]
        exact List.isEmpty_iff.1 hempty
      rw [hnone] at hdescribed
      rw [hempty, if_pos rfl] at hpass
      split_ifs at hpass
      · cases hsave : around.save with
        | some e =>
          rw [hsave] at hpass
          cases hpass
        | none =>
          rw [hsave] at hpass
          cases hpass
          exact ⟨rfl, rfl, rfl, hdescribed⟩
      · cases hpass
        exact ⟨rfl, rfl, rfl, hdescribed⟩
    | false =>
      rw [hempty, if_neg Bool.false_ne_true] at hpass
      cases hquery : around.query with
      | some e =>
        rw [hquery] at hpass
        cases hpass
      | none =>
        cases hsave : around.save with
        | some e =>
          rw [hquery, hsave] at hpass
          cases hpass
        | none =>
          rw [hquery, hsave] at hpass
          cases hpass
          refine ⟨rfl, rfl, rfl, ?_⟩
          show Described setting s.contents (List.foldl _ _ _)
          rw [hfound, List.foldl_map]
          rw [List.foldl_map] at hdescribed
          exact hdescribed

/-! ## Runs -/

/-- The service with what is known of its last rescan. -/
structure Watched (β : Type) where
  service : ModService β
  /-- The jars that the last rescan to return nil has found. -/
  scanned : List (JarContent β) := []
  /-- Whether the folders are unchanged since. -/
  settled : Bool := false

inductive RescanEvent (β : Type) where
  /-- Something outside changes what is in the folders. -/
  | change (mods plugins : List (DirEntry β))
  | rescan (around : Around)

/-- What a rescan leaves. -/
def Watched.after (s : Watched β) (result : Option String × ModService β) : Watched β :=
  match result.1 with
  | some _ => { s with service := result.2 }
  | none => { service := result.2, scanned := s.service.contents, settled := true }

def Watched.act (setting : Setting β) (s : Watched β) : RescanEvent β → Watched β
  | .change mods plugins =>
    { s with service := { s.service with mods := mods, plugins := plugins }, settled := false }
  | .rescan around => s.after (rescan setting around s.service)

/-- A server's folders beside what changes them. -/
def watching (setting : Setting β) : Labelled.System (Watched β) (RescanEvent β) Unit where
  act e s := ((), s.act setting e)
  enabled _ _ := True

/-- A folder that is changed: names stay unique, and a changed file changes its size or time. -/
def Touched (old new : List (DirEntry β)) : Prop :=
  (new.map (·.name)).Nodup ∧ ∀ e ∈ old, ∀ e' ∈ new,
    e'.name = e.name → e'.size = e.size → e'.modTime = e.modTime → e'.data = e.data

/-- What happens from outside, while the provider can be reached. -/
def Outside (s : Watched β) : RescanEvent β → Prop
  | .change mods plugins => Touched s.service.mods mods ∧ Touched s.service.plugins plugins
  | .rescan around => around.query = none

/-- A rescan that looks can describe the jars, and one that does not finds what was scanned. -/
def Watched.Faithful (setting : Setting β) (s : Watched β) : RescanEvent β → Prop
  | .change _ _ => True
  | .rescan around => around.config = none →
    if s.service.lastSig = some (folderSignature s.service.scanJarFiles) then
      s.service.contents = s.scanned
    else Passable setting around s.service

/-- The manifest describes the jars, and a further rescan asks and changes nothing. -/
def Watched.InOrder (setting : Setting β) (s : Watched β) : Prop :=
  Described setting s.service.contents s.service.items ∧
    ∀ around, (rescan setting around s.service).2 = s.service

/-- A folder signature that is recorded was taken of jars that the manifest describes. -/
structure Watched.Invariant (setting : Setting β) (s : Watched β) : Prop where
  recorded : s.service.lastSig.isSome = true → Described setting s.scanned s.service.items
  settled : s.settled = true →
    s.service.lastSig = some (folderSignature s.service.scanJarFiles) ∧
      s.service.contents = s.scanned

/-- Where the signature is the one recorded, a rescan stops. -/
theorem rescan_of_lastSig {s : ModService β}
    (h : s.lastSig = some (folderSignature s.scanJarFiles)) (around : Around) :
    rescan setting around s = (around.config, s) := by
  unfold rescan rescanServer
  cases around.config with
  | some e => rfl
  | none =>
    simp only [if_pos h]
    rfl

theorem Watched.Invariant.inOrder {s : Watched β} (h : s.Invariant setting)
    (hsettled : s.settled = true) : s.InOrder setting := by
  obtain ⟨hsig, hsame⟩ := h.settled hsettled
  constructor
  · rw [hsame]
    exact h.recorded (by rw [hsig]; rfl)
  · intro around
    rw [rescan_of_lastSig hsig]

theorem Watched.Invariant.rescan {s : Watched β} (h : s.Invariant setting)
    (hfaithful : s.Faithful setting (.rescan around)) :
    (s.act setting (.rescan around)).Invariant setting := by
  show (s.after (Mods.rescan setting around s.service)).Invariant setting
  by_cases hsig : s.service.lastSig = some (folderSignature s.service.scanJarFiles)
  · rw [rescan_of_lastSig hsig, Watched.after]
    cases hconfig : around.config with
    | some e => exact h
    | none =>
      have hsame := hfaithful hconfig
      rw [if_pos hsig] at hsame
      refine ⟨fun hsome => ?_, fun _ => ⟨hsig, rfl⟩⟩
      exact hsame ▸ h.recorded hsome
  · unfold Mods.rescan rescanServer
    cases hconfig : around.config with
    | some e => exact ⟨h.recorded, h.settled⟩
    | none =>
      have hpassable := hfaithful hconfig
      rw [if_neg hsig] at hpassable
      have hpassable' : Passable setting around { s.service with
          lastSig := some (folderSignature s.service.scanJarFiles) } := { hpassable with }
      simp only [if_neg hsig]
      rcases hpass : Mods.identifyUnknown setting around { s.service with
        lastSig := some (folderSignature s.service.scanJarFiles) } with ⟨result, service⟩
      cases result with
      | error e =>
        -- The signature is forgotten.
        exact ⟨fun hsome => absurd hsome Bool.false_ne_true,
          fun hsettled => absurd (h.settled hsettled).1 hsig⟩
      | ok changed =>
        obtain ⟨hmods, hplugins, hlast, hdescribed⟩ := hpassable'.identifyUnknown hpass
        have hscan : service.scanJarFiles = s.service.scanJarFiles := by
          unfold ModService.scanJarFiles
          rw [hmods, hplugins]
        refine ⟨fun _ => hdescribed, fun _ => ⟨?_, ?_⟩⟩
        · show service.lastSig = some (folderSignature service.scanJarFiles)
          rw [hlast, hscan]
        · show service.contents = s.service.contents
          rw [ModService.contents, hscan]
          rfl

theorem Watched.Invariant.act {s : Watched β} {e : RescanEvent β} (h : s.Invariant setting)
    (hfaithful : s.Faithful setting e) : (s.act setting e).Invariant setting := by
  cases e with
  | change mods plugins => exact ⟨h.recorded, nofun⟩
  | rescan around => exact h.rescan hfaithful

/-- In every run whose rescans are faithful, after one that returned nil and as long as the folders
are unchanged, the manifest describes every jar and a further rescan does nothing. -/
theorem manifest_describes_jars {start : ModService β}
    {h : Labelled.History (Watched β) (RescanEvent β)} {s : Watched β}
    (hstart : start.lastSig = none)
    (hrun : Labelled.Run (watching setting) (fun _ s e => s.Faithful setting e)
      { service := start } h s)
    (hsettled : s.settled = true) : s.InOrder setting := by
  suffices hinv : s.Invariant setting from hinv.inOrder hsettled
  refine hrun.invariant (P := fun _ s => s.Invariant setting) ?_ ?_
  · refine ⟨fun hsome => ?_, nofun⟩
    rw [show ({ service := start : Watched β }).service.lastSig = none from hstart] at hsome
    cases hsome
  · exact fun _ _ _ _ hinv _ hfaithful => hinv.act hfaithful

/-! ## Runs on fixed inputs -/

/-- A provider that knows two jars, by the texts that stand for their bytes. -/
def twoVersions : Setting String where
  provider :=
    { id := "modrinth"
      versionByHash := fun hash =>
        if hash = "one" ∨ hash = "two" then
          some { id := hash, projectID := "project-" ++ hash, versionNumber := "1.0",
                 fileName := "a.jar", sha512 := hash, clientOnly := false }
        else none
      project := fun _ => none }
  sha512 := id
  equalFold := fun a b => a = b
  parseJarMeta := fun _ _ => {}

/-- The jar of that name, changed at that time. -/
def jarAt (time : Int) (data : String) : DirEntry String :=
  { name := "a.jar", size := 3, modTime := time * 1000000, data := data }

/-- A server without a jar. -/
def emptyServer : ModService String := { mods := [], plugins := [], saved := none }

/-- Everything answers. -/
def reachable : Around := { loader := .ok "fabric" }

/-- A jar is copied into the mods folder and found; the last event comes first. -/
def copiedIn : List (RescanEvent String) :=
  [.rescan reachable, .change [jarAt 1 "one"] []]

theorem manifest_describes_jars_copiedIn :
    ((watching twoVersions).play { service := emptyServer } copiedIn).2.InOrder twoVersions := by
  have hplay : (watching twoVersions).Playable (fun _ s e => s.Faithful twoVersions e)
      { service := emptyServer } copiedIn := by
    refine ⟨⟨trivial, trivial, trivial⟩, trivial, fun _ => ?_⟩
    rw [if_neg (by decide +kernel)]
    refine ⟨by decide +kernel, List.nodup_nil, ?_, fun _ _ _ => List.not_mem_nil, ?_⟩
    · exact fun jar _ hknown => absurd hknown Bool.false_ne_true
    · exact fun jar _ _ hash hsome => absurd hsome nofun
  exact manifest_describes_jars rfl hplay.run (by decide +kernel)

/-- The jar is replaced under the same name, at a later time. -/
def replaced : List (RescanEvent String) :=
  [.rescan reachable, .change [jarAt 2 "two"] [], .rescan reachable, .change [jarAt 1 "one"] []]

/-- The row is still that of the jar that was replaced. -/
theorem not_manifest_describes_jars :
    ¬ ∀ (setting : Setting String) (start : ModService String)
      (h : Labelled.History (Watched String) (RescanEvent String)) (s : Watched String),
      Function.Injective setting.sha512 → start.lastSig = none →
      Labelled.Run (watching setting) (fun _ s e => Outside s e) { service := start } h s →
      s.settled = true → s.InOrder setting := by
  intro h
  have hplay : (watching twoVersions).Playable (fun _ s e => Outside s e)
      { service := emptyServer } replaced := by
    refine ⟨⟨⟨⟨trivial, trivial, ?_, ?_⟩, trivial, rfl⟩, trivial, ?_, ?_⟩, trivial, rfl⟩
    · exact ⟨by decide, nofun⟩
    · exact ⟨List.nodup_nil, nofun⟩
    · refine ⟨by decide, fun e he e' he' _ _ htime => ?_⟩
      obtain rfl := List.mem_singleton.1 he
      obtain rfl := List.mem_singleton.1 he'
      exact absurd htime (by decide)
    · exact ⟨List.nodup_nil, nofun⟩
  have horder := h twoVersions emptyServer _ _ Function.injective_id rfl hplay.run
    (by decide +kernel)
  generalize hs : ((watching twoVersions).play { service := emptyServer } replaced).2 = s at horder
  have hrows : s.service.contents.map (fun jar =>
      ((s.service.items.filter (·.fileName = jar.name)).map (·.projectID),
        (answer twoVersions jar).2.1)) = [(["project-one"], "project-two")] := by
    rw [← hs]
    decide +kernel
  obtain ⟨jar, hjar, heq⟩ := List.mem_map.1 (hrows ▸ List.mem_singleton_self _)
  obtain ⟨hold, hnew⟩ := Prod.mk.inj heq
  obtain ⟨⟨row, hrow, hdescribes⟩, -⟩ := horder.1 jar hjar
  rw [hrow, List.map_singleton, List.singleton_inj] at hold
  have hproject : row.projectID = (answer twoVersions jar).2.1 := congrArg (·.2.1) hdescribes
  rw [hold, hnew] at hproject
  exact absurd hproject (by decide)

end Konnekt.Mods
