import Konnekt.ConfigEditor.Listing
import Konnekt.Go.Padded
import Mathlib.Data.List.DropRight
import Mathlib.Data.List.Sort

/-!
# Backups of the config files

Before a config file is replaced, what is in it is copied into the backup folder of the
server, under its path with the slashes replaced and the time, and of the backups whose
names begin as this one does all but the last three are removed. Whose backup a file is
can only be told from its name.
-/

namespace Konnekt.ConfigEditor

open Go

/-! ## Names -/

/-- A time by the calendar and the clock of the host. -/
structure LocalTime where
  year : Int
  month : Nat
  day : Nat
  hour : Nat
  minute : Nat
  second : Nat
  nanosecond : Nat
  month_le : month ≤ 12
  day_le : day ≤ 31
  hour_lt : hour < 24
  minute_lt : minute < 60
  second_lt : second < 60
  nanosecond_lt : nanosecond < 1000000000
  deriving DecidableEq

/-- The fields of a time, the widest first. -/
def LocalTime.fields (t : LocalTime) : List Int :=
  [t.year, t.month, t.day, t.hour, t.minute, t.second, t.nanosecond]

instance : LT LocalTime := ⟨fun t u => t.fields < u.fields⟩

/-- The stamp in the name of a backup, with the milliseconds. -/
def backupStamp (t : LocalTime) : String :=
  formatYear t.year ++ zeroPadded 2 t.month ++ zeroPadded 2 t.day ++ "_" ++ zeroPadded 2 t.hour ++
    zeroPadded 2 t.minute ++ zeroPadded 2 t.second ++ "_" ++
    zeroPadded 3 (t.nanosecond / 1000000)

/-- `escaped`: the path of a config with its slashes replaced. -/
def escapePath (relPath : String) : String :=
  String.ofList (relPath.toList.flatMap fun c => if c = '/' then ['_', '_'] else [c])

/-- The name of a backup in the folder. -/
def backupName (escaped : String) (t : LocalTime) : String :=
  escaped ++ "." ++ backupStamp t ++ ".bak"

/-! ## The folder -/

structure BackupFile where
  name : String
  data : String
  deriving DecidableEq, Repr

/-- The backup folder of a server. -/
structure BackupDir where
  files : List BackupFile
  nodup : (files.map (·.name)).Nodup

namespace BackupDir

variable (dir : BackupDir)

def names : List String := dir.files.map (·.name)

/-- A new file; a name that is there is left alone. -/
def create (name data : String) : BackupDir :=
  if h : name ∈ dir.names then dir
  else
    { files := dir.files ++ [⟨name, data⟩]
      nodup := by
        rw [List.map_append]
        exact List.nodup_append_comm.1 (List.nodup_cons.2 ⟨h, dir.nodup⟩) }

/-- `os.ReadDir`: the names, in their order. -/
def readDir : List String := dir.names.insertionSort (· ≤ ·)

/-- The folder without some of its files. -/
def removeAll (doomed : String → Bool) : BackupDir where
  files := dir.files.filter fun f => !doomed f.name
  nodup := dir.nodup.sublist (List.filter_sublist.map _)

end BackupDir

/-- A backup that was made: of which config, when, and what was in it. -/
structure Backup where
  config : String
  time : LocalTime
  data : String
  deriving DecidableEq

/-- The file of a backup. -/
def Backup.file (b : Backup) : BackupFile := ⟨backupName (escapePath b.config) b.time, b.data⟩

/-- The backup folder, with the backups that were made, the last one last. -/
structure Backups where
  dir : BackupDir
  made : List Backup

/-- The backups of one config, the last one last. -/
def Backups.of (s : Backups) (config : String) : List Backup :=
  s.made.filter fun b => b.config = config

/-- A server without any backups. -/
def noBackups : Backups := ⟨⟨[], List.nodup_nil⟩, []⟩

def backupKeep : Nat := 3

/-! ## Writing a config -/

/-- What fails during a write for reasons of the disk. -/
structure WriteFaults where
  /-- Making the backup folder, or narrowing its mode. -/
  folder : Option String := none
  create : Option String := none
  /-- The copy, with what had been copied by then. -/
  copy : Option (String × String) := none
  readDir : Bool := false
  remove : String → Bool := fun _ => false
  write : Option String := none

/-- A call of `WriteConfigFile`, with the disk, the clock and the failures it meets. -/
structure WriteCall where
  relPath : String
  content : String
  disk : WorkDir
  /-- What is in the files of the working directory, by their paths without links. -/
  data : List String → String
  /-- The time at each attempt to create the backup. -/
  now : Nat → LocalTime
  faults : WriteFaults := {}

def walkText : WalkError → String
  | .notExist => "no such file or directory"
  | .notDir => "not a directory"
  | .tooManyLinks => "too many levels of symbolic links"

/-- The file a path leads to when the host opens it. -/
def WriteCall.opened (call : WriteCall) (abs : List String) : Except WalkError (List String) :=
  match call.disk.tree with
  | none => .error .notExist
  | some t => t.walk openLinks (abs.drop call.disk.path.length)

/-- The copy of the file into the backup, or what was copied of it and the error. -/
def WriteCall.copied (call : WriteCall) (abs : List String) : Except (String × String) String :=
  match call.opened abs with
  | .error e => .error ("", walkText e)
  | .ok real =>
    if (call.disk.tree.bind fun t => t.kind real) = some .dir then .error ("", "is a directory")
    else match call.faults.copy with
      | some fault => .error fault
      | none => .ok (call.data real)

/-- `createConfigBackupFile`: the time in the name of the file that is created. -/
def createConfigBackupFile (call : WriteCall) (dir : BackupDir) (escaped : String) :
    Except String LocalTime :=
  match call.faults.create with
  | some e => .error e
  | none =>
    match ((List.range 100).map call.now).find? fun t => backupName escaped t ∉ dir.names with
    | some t => .ok t
    | none => .error "no free config backup filename after 100 attempts"

/-- The names `pruneBackups` takes for backups of a config. -/
def NamedFor (escaped name : String) : Prop :=
  (escaped ++ ".").toList <+: name.toList ∧ ".bak".toList <:+ name.toList

instance (escaped name : String) : Decidable (NamedFor escaped name) :=
  inferInstanceAs (Decidable (_ ∧ _))

/-- `pruneBackups`. -/
def pruneBackups (faults : WriteFaults) (dir : BackupDir) (escaped : String) : BackupDir :=
  if faults.readDir then dir
  else
    let matching := dir.readDir.filter fun name => NamedFor escaped name
    let removed := matching.take (matching.length - backupKeep)
    dir.removeAll fun name => name ∈ removed && !faults.remove name

/-- `backup`, of a config whose path is in the working directory. -/
def backup (call : WriteCall) (abs : List String) (s : Backups) : Except String Unit × Backups :=
  if call.opened abs = .error .notExist then (.ok (), s)
  else
    let escaped := escapePath call.relPath
    match call.faults.folder with
    | some e => (.error e, s)
    | none =>
      match createConfigBackupFile call s.dir escaped with
      | .error e => (.error e, s)
      | .ok time =>
        match call.copied abs with
        | .error (part, e) =>
          (.error e, { s with dir := s.dir.create (backupName escaped time) part })
        | .ok data =>
          (.ok (), { dir := pruneBackups call.faults
                       (s.dir.create (backupName escaped time) data) escaped,
                     made := s.made ++ [⟨call.relPath, time, data⟩] })

/-- Why a write reports an error. -/
inductive WriteError where
  | notListed (message : String)
  | sandbox (e : SandboxError)
  | failed (message : String)
  deriving DecidableEq, Repr

section

variable (u : Letters) (unmarshal : String → Except String Unit)

/-- The check of JSON before it is written. -/
def checkJSON (call : WriteCall) : Except String Unit :=
  if ".json".toList <:+ (call.relPath.map u.toLower).toList then
    (unmarshal call.content).mapError ("invalid JSON: " ++ ·)
  else .ok ()

/-- `WriteConfigFile`, as far as it concerns the backups. -/
def writeConfigFile (call : WriteCall) (s : Backups) : Except WriteError Unit × Backups :=
  match listedConfigPath u call.relPath with
  | .error e => (.error (.notListed e), s)
  | .ok () =>
    match sandbox call.disk call.relPath with
    | .error e => (.error (.sandbox e), s)
    | .ok abs =>
      match checkJSON u unmarshal call with
      | .error e => (.error (.failed e), s)
      | .ok () =>
        match backup call abs s with
        | (.error e, s) => (.error (.failed ("backup failed: " ++ e)), s)
        | (.ok (), s) =>
          match call.faults.write with
          | some e => (.error (.failed e), s)
          | none => (.ok (), s)

/-- The backups after some writes. -/
def writeConfigFiles (s : Backups) (calls : List WriteCall) : Backups :=
  calls.foldl (fun s call => (writeConfigFile u unmarshal call s).2) s

end

/-! ## Backups that are kept -/

/-- The call gets as far as the backup of a file that is there. -/
structure Begins (u : Letters) (unmarshal : String → Except String Unit) (call : WriteCall)
    (abs : List String) : Prop where
  listed : listedConfigPath u call.relPath = .ok ()
  inside : sandbox call.disk call.relPath = .ok abs
  valid : checkJSON u unmarshal call = .ok ()
  exists_file : call.opened abs ≠ .error .notExist

/-- What a write leads to. -/
structure Keeps (s : Backups) (call : WriteCall) (s' : Backups) : Prop where
  /-- Of each config the last three backups are there, in files of their own. -/
  newest : ∀ config, ∀ b ∈ (s'.of config).rtake backupKeep, b.file ∈ s'.dir.files
  distinct : ∀ config, ((s'.of config).map (·.file.name)).Nodup
  /-- No backup of another config is removed. -/
  others : ∀ b ∈ s.made, b.config ≠ call.relPath → b.file ∈ s.dir.files → b.file ∈ s'.dir.files

/-- Names of one config can begin as those of another do. -/
def Clash (config other : String) : Prop :=
  (escapePath config ++ ".").toList <+: (escapePath other ++ ".").toList

instance (config other : String) : Decidable (Clash config other) :=
  inferInstanceAs (Decidable (_ <+: _))

section

variable (u : Letters) (unmarshal : String → Except String Unit)

/-- Every write of a run keeps the backups. -/
def KeptPerFile (s : Backups) : List WriteCall → Prop
  | [] => True
  | call :: calls =>
    let s' := (writeConfigFile u unmarshal call s).2
    Keeps s call s' ∧ KeptPerFile s' calls

/-- The local times of the calls increase. -/
def Clocked (calls : List WriteCall) : Prop :=
  calls.Pairwise fun call later => ∀ i j, call.now i < later.now j

/-- The condition on a write that makes a backup: the names of no config with a backup can begin
as its own do, the years have four digits, and the copy is complete. -/
structure SafeWrite (s : Backups) (call : WriteCall) : Prop where
  apart : ∀ b ∈ s.made, b.config ≠ call.relPath → ¬ Clash call.relPath b.config
  years : ∀ i, 0 ≤ (call.now i).year ∧ (call.now i).year < 10000
  complete : ∀ abs, sandbox call.disk call.relPath = .ok abs → ∃ data, call.copied abs = .ok data

/-- Every write that makes a backup meets the condition. -/
def SafeRun (s : Backups) : List WriteCall → Prop
  | [] => True
  | call :: calls =>
    ((∃ abs, Begins u unmarshal call abs) → SafeWrite s call) ∧
      SafeRun (writeConfigFile u unmarshal call s).2 calls

end

/-! ## Times and names -/

/-- Names of one config sort as their times do, to the millisecond. -/
theorem backupName_le {t t' : LocalTime} (escaped : String) (h : t < t') (hyear : 0 ≤ t.year)
    (hyear' : t'.year < 10000) : backupName escaped t ≤ backupName escaped t' := by
  have hfields : t.fields < t'.fields := h
  have hfrom : t.year ≤ t'.year := by
    simp only [LocalTime.fields, List.cons_lt_cons_iff] at hfields
    omega
  have hmilli : t'.nanosecond / 1000000 < 1000 := by
    have hlt := t'.nanosecond_lt
    omega
  have hbounds := And.intro t'.month_le (And.intro t'.day_le (And.intro t'.hour_lt
    (And.intro t'.minute_lt t'.second_lt)))
  rw [String.le_iff_toList_le]
  simp only [backupName, backupStamp, formatYear_of_nonneg hyear,
    formatYear_of_nonneg (hyear.trans hfrom), String.toList_append, List.append_assoc]
  simp only [LocalTime.fields, List.cons_lt_cons_iff, Nat.cast_lt, Nat.cast_inj] at hfields
  apply append_left_le
  apply append_left_le
  refine zeroPadded_append_le (by decide) (by omega)
    (hfields.imp (by omega) (And.imp_left (by omega))) fun hfields => ?_
  refine zeroPadded_append_le (by decide) (by omega) hfields fun hfields => ?_
  refine zeroPadded_append_le (by decide) (by omega) hfields fun hfields => ?_
  apply append_left_le
  refine zeroPadded_append_le (by decide) (by omega) hfields fun hfields => ?_
  refine zeroPadded_append_le (by decide) (by omega) hfields fun hfields => ?_
  refine zeroPadded_append_le (by decide) (by omega) hfields fun hfields => ?_
  apply append_left_le
  have hle : t.nanosecond / 1000000 ≤ t'.nanosecond / 1000000 := by
    apply Nat.div_le_div_right
    simp only [List.not_lt_nil, and_false, or_false] at hfields
    exact hfields.le
  exact zeroPadded_append_le (by decide) hmilli
    ((Nat.lt_or_eq_of_le hle).imp_right (⟨·, trivial⟩)) fun _ => le_rfl

theorem isDigit_or_of_mem_backupStamp {t : LocalTime} {c : Char}
    (h : c ∈ (backupStamp t).toList) : c.isDigit = true ∨ c = '_' ∨ c = '-' := by
  simp only [backupStamp, formatYear, String.toList_append, List.mem_append] at h
  obtain (((((((h | h) | h) | h) | h) | h) | h) | h) | h := h
  · cases h with
    | inl h =>
      by_cases hneg : t.year < 0
      · rw [if_pos hneg] at h
        exact .inr (.inr (by simpa using h))
      · rw [if_neg hneg] at h
        exact absurd h (by simp)
    | inr h => exact .inl (isDigit_of_mem_zeroPadded h)
  · exact .inl (isDigit_of_mem_zeroPadded h)
  · exact .inl (isDigit_of_mem_zeroPadded h)
  · exact .inr (.inl (by simpa using h))
  · exact .inl (isDigit_of_mem_zeroPadded h)
  · exact .inl (isDigit_of_mem_zeroPadded h)
  · exact .inl (isDigit_of_mem_zeroPadded h)
  · exact .inr (.inl (by simpa using h))
  · exact .inl (isDigit_of_mem_zeroPadded h)

theorem dot_notMem_backupStamp (t : LocalTime) : '.' ∉ (backupStamp t).toList := by
  intro h
  have hdot := isDigit_or_of_mem_backupStamp h
  revert hdot
  decide

/-- A stamp is longer than the extension of any config. -/
theorem lt_length_backupStamp (t : LocalTime) : 10 < (backupStamp t).toList.length := by
  have hyear := le_length_zeroPadded 4 t.year.natAbs
  have hmonth := le_length_zeroPadded 2 t.month
  have hday := le_length_zeroPadded 2 t.day
  have hhour := le_length_zeroPadded 2 t.hour
  have hminute := le_length_zeroPadded 2 t.minute
  simp only [backupStamp, formatYear, String.length_toList, String.length_append]
  omega

/-! ## The name of a config in the name of a backup -/

/-- A name with a format ends in a dot and few characters after it. -/
theorem exists_ext {u : Letters} {name format : String} (h : extFormat u name = some format) :
    ∃ a e, name.toList = a ++ '.' :: e ∧ '.' ∉ e ∧ e.length ≤ 10 := by
  have hkeys : ∀ k ∈ configExtensions, 0 < k.1.length ∧ k.1.length ≤ 11 := by decide
  obtain ⟨before, after, heq, -⟩ := List.lookup_eq_some_iff.1 h
  obtain ⟨hpos, hle⟩ := hkeys (_, format) (heq ▸ List.mem_append_right before List.mem_cons_self)
  rw [String.length_map, ext] at hpos hle
  by_cases hdot : '.' ∈ name.toList
  · obtain ⟨e, a, hname, he⟩ := List.eq_append_cons_of_mem (List.mem_reverse.2 hdot)
    refine ⟨a.reverse, e.reverse, ?_, ?_, ?_⟩
    · rw [← List.reverse_reverse name.toList, hname]
      simp
    · rwa [List.mem_reverse]
    · have htake : name.toList.reverse.takeWhile (· ≠ '.') = e := by
        rw [hname, List.takeWhile_append_of_pos, List.takeWhile_cons_of_neg, List.append_nil]
        · simp
        · intro c hc
          simpa using ne_of_mem_of_not_mem hc he
      rw [if_pos hdot, htake, String.length_ofList, List.length_cons] at hle
      omega
  · rw [if_neg hdot] at hpos
    exact absurd hpos (by decide)

/-- So does the path of a config. -/
theorem exists_ext_of_listed {u : Letters} {relPath : String}
    (h : listedConfigPath u relPath = .ok ()) :
    ∃ a e, relPath.toList = a ++ '.' :: e ∧ '.' ∉ e ∧ '/' ∉ e ∧ e.length ≤ 10 := by
  have hclassify : classifyConfigPath u relPath ≠ none := by
    intro hnone
    simp only [listedConfigPath, hnone, if_true] at h
    split at h <;> [cases h; split at h <;> cases h]
  have hformat : ∃ format, extFormat u ((Path.parts relPath).getLastD "") = some format := by
    rw [← Option.ne_none_iff_exists']
    intro hnone
    simp only [classifyConfigPath, hnone, ne_eq, not_true_eq_false] at hclassify
  obtain ⟨format, hformat⟩ := hformat
  obtain ⟨init, last, hsplit⟩ : ∃ init last, splitChars '/' relPath.toList = init ++ [last] :=
    ⟨_, _, (List.dropLast_append_getLast (splitChars_ne_nil '/' relPath.toList)).symm⟩
  have hlast : (Path.parts relPath).getLastD "" = String.ofList last := by
    simp [Path.parts, split, hsplit]
  rw [hlast] at hformat
  obtain ⟨a, e, hname, hdot, hlength⟩ := exists_ext hformat
  rw [String.toList_ofList] at hname
  obtain ⟨dir, hdir⟩ := suffix_of_splitChars hsplit
  refine ⟨dir ++ a, e, ?_, hdot, ?_, hlength⟩
  · rw [← hdir, hname, List.append_assoc]
  · intro hslash
    have hmem : last ∈ splitChars '/' relPath.toList := hsplit ▸ by simp
    apply not_mem_of_mem_splitChars hmem
    rw [hname]
    exact List.mem_append_right a (List.mem_cons_of_mem _ hslash)

theorem flatMap_escape {l : List Char} (h : '/' ∉ l) :
    (l.flatMap fun c => if c = '/' then ['_', '_'] else [c]) = l := by
  induction l with
  | nil => rfl
  | cons c l ih =>
    rw [List.mem_cons, not_or] at h
    rw [List.flatMap_cons, if_neg (Ne.symm h.1), ih h.2, List.singleton_append]

theorem exists_ext_escapePath {u : Letters} {relPath : String}
    (h : listedConfigPath u relPath = .ok ()) :
    ∃ a e, (escapePath relPath).toList = a ++ '.' :: e ∧ '.' ∉ e ∧ e.length ≤ 10 := by
  obtain ⟨a, e, hpath, hdot, hslash, hlength⟩ := exists_ext_of_listed h
  refine ⟨a.flatMap fun c => if c = '/' then ['_', '_'] else [c], e, ?_, hdot, hlength⟩
  have htail : '/' ∉ '.' :: e := List.not_mem_cons_of_ne_of_not_mem (by decide) hslash
  rw [escapePath, String.toList_ofList, hpath, List.flatMap_append, flatMap_escape htail]

/-- A text up to a dot begins another with two dots, up to one of them. -/
theorem dotted_prefix {x y stamp tail : List Char} (hstamp : '.' ∉ stamp) (htail : '.' ∉ tail)
    (h : x ++ ['.'] <+: y ++ '.' :: (stamp ++ '.' :: tail)) :
    x ++ ['.'] <+: y ++ ['.'] ∨ x = y ++ '.' :: stamp := by
  have hy : y ++ ['.'] <+: y ++ '.' :: (stamp ++ '.' :: tail) :=
    ⟨stamp ++ '.' :: tail, by simp⟩
  by_cases hlength : x.length ≤ y.length
  · exact .inl (List.prefix_of_prefix_length_le h hy (by simpa using hlength))
  · obtain ⟨z, rfl⟩ : y ++ ['.'] <+: x := by
      apply List.prefix_of_prefix_length_le hy ((List.prefix_append x ['.']).trans h)
      rw [List.length_append, List.length_singleton]
      omega
    obtain ⟨rest, hrest⟩ := h
    have hsplit : stamp ++ '.' :: tail = z ++ '.' :: rest := by simpa using hrest.symm
    obtain ⟨rfl, -, -⟩ := (List.append_cons_inj_of_notMem hstamp htail).1 hsplit
    exact .inr (by simp)

theorem toList_dotted (escaped : String) : (escaped ++ ".").toList = escaped.toList ++ ['.'] :=
  String.toList_append

theorem toList_backupName (escaped : String) (t : LocalTime) :
    (backupName escaped t).toList =
      escaped.toList ++ '.' :: ((backupStamp t).toList ++ '.' :: "bak".toList) := by
  have hend : ".bak".toList = '.' :: "bak".toList := rfl
  rw [backupName, String.toList_append, String.toList_append, toList_dotted, hend,
    List.append_assoc, List.append_assoc, List.singleton_append]

/-- A name that could be of either config shows that their names clash. -/
theorem clash_of_namedFor {u : Letters} {config other : String} {t : LocalTime}
    (hlisted : listedConfigPath u config = .ok ())
    (h : NamedFor (escapePath config) (backupName (escapePath other) t)) :
    Clash config other := by
  obtain ⟨hpre, -⟩ := h
  rw [toList_dotted, toList_backupName] at hpre
  cases dotted_prefix (dot_notMem_backupStamp t) (by decide) hpre with
  | inl hclash => rwa [Clash, toList_dotted, toList_dotted]
  | inr hstamp =>
    -- the stamp would be the extension of the config, and is too long for one
    exfalso
    obtain ⟨a, e, hext, hdot, he⟩ := exists_ext_escapePath hlisted
    have hend : '.' :: e <:+ (escapePath config).toList := ⟨a, hext.symm⟩
    have hend' : (backupStamp t).toList <:+ (escapePath config).toList := by
      rw [hstamp]
      exact (List.suffix_cons '.' _).trans (List.suffix_append _ _)
    have hsuffix : '.' :: e <:+ (backupStamp t).toList := by
      apply List.suffix_of_suffix_length_le hend hend'
      have hlength := lt_length_backupStamp t
      rw [List.length_cons]
      omega
    exact dot_notMem_backupStamp t (hsuffix.subset List.mem_cons_self)

/-! ## Pruning -/

theorem mem_create {dir : BackupDir} {name data : String} (hfree : name ∉ dir.names)
    (f : BackupFile) : f ∈ (dir.create name data).files ↔ f ∈ dir.files ∨ f = ⟨name, data⟩ := by
  rw [BackupDir.create, dif_neg hfree, List.mem_append, List.mem_singleton]

theorem mem_readDir {dir : BackupDir} {name : String} :
    name ∈ dir.readDir ↔ ∃ f ∈ dir.files, f.name = name := by
  rw [BackupDir.readDir, List.mem_insertionSort, BackupDir.names, List.mem_map]

theorem readDir_increasing (dir : BackupDir) : dir.readDir.Pairwise (· < ·) := by
  have hsorted : dir.readDir.Pairwise (· ≤ ·) := List.pairwise_insertionSort (· ≤ ·) dir.names
  have hnodup : dir.readDir.Nodup := (List.perm_insertionSort _ _).nodup_iff.2 dir.nodup
  exact (hsorted.and hnodup).imp fun h => lt_of_le_of_ne h.1 h.2

/-- Of an increasing list the last names are not among the first ones of a part of it. -/
theorem notMem_take_of_mem_rtake {names part : List String} (hnames : names.Pairwise (· < ·))
    (hpart : part.Pairwise (· < ·)) (hsubset : part ⊆ names) {k : Nat} {name : String}
    (h : name ∈ names.rtake k) : name ∉ part.take (part.length - k) := by
  intro hdoomed
  have hsublist : List.Sublist part names :=
    List.sublist_of_subperm_of_pairwise (r := (· < ·))
      (List.subperm_of_subset (hpart.imp ne_of_lt) hsubset) hpart hnames
  have hdrop : List.Sublist (part.rdrop k) (names.rdrop k) := by
    rw [List.rdrop_eq_reverse_drop_reverse, List.rdrop_eq_reverse_drop_reverse]
    exact (hsublist.reverse.drop k).reverse
  have hnodup : (names.rdrop k ++ names.rtake k).Nodup := by
    rw [List.rdrop, List.rtake, List.take_append_drop]
    exact hnames.imp ne_of_lt
  exact List.disjoint_of_nodup_append hnodup (hdrop.subset hdoomed) h

/-- Pruning removes only names of the config. -/
theorem mem_pruneBackups_of_not_namedFor {faults : WriteFaults} {dir : BackupDir}
    {escaped : String} {f : BackupFile} (hf : f ∈ dir.files) (hnot : ¬ NamedFor escaped f.name) :
    f ∈ (pruneBackups faults dir escaped).files := by
  unfold pruneBackups
  split
  · exact hf
  · refine List.mem_filter.2 ⟨hf, ?_⟩
    rw [Bool.not_eq_true', Bool.and_eq_false_iff]
    left
    rw [decide_eq_false_iff_not]
    intro hmem
    have hmatching := List.mem_of_mem_take hmem
    exact hnot (by simpa using (List.mem_filter.1 hmatching).2)

/-- Pruning leaves the last names, where all that are named for the config are its own. -/
theorem mem_pruneBackups {faults : WriteFaults} {dir : BackupDir} {escaped : String}
    {names : List String} (hnames : names.Pairwise (· < ·))
    (hown : ∀ f ∈ dir.files, NamedFor escaped f.name → f.name ∈ names) {f : BackupFile}
    (hf : f ∈ dir.files) (hnewest : f.name ∈ names.rtake backupKeep) :
    f ∈ (pruneBackups faults dir escaped).files := by
  unfold pruneBackups
  split
  · exact hf
  · refine List.mem_filter.2 ⟨hf, ?_⟩
    rw [Bool.not_eq_true', Bool.and_eq_false_iff]
    left
    rw [decide_eq_false_iff_not]
    apply notMem_take_of_mem_rtake hnames ((readDir_increasing dir).filter _) _ hnewest
    intro name hname
    obtain ⟨hname, hnamed⟩ := List.mem_filter.1 hname
    obtain ⟨g, hg, rfl⟩ := mem_readDir.1 hname
    exact hown g hg (by simpa using hnamed)

theorem pruneBackups_subset (faults : WriteFaults) (dir : BackupDir) (escaped : String) :
    (pruneBackups faults dir escaped).files ⊆ dir.files := by
  unfold pruneBackups
  split
  · exact List.Subset.refl _
  · exact List.filter_subset_self _

/-! ## One write -/

section

variable {u : Letters} {unmarshal : String → Except String Unit}

/-- The backups after one that was made. -/
def Backups.add (s : Backups) (call : WriteCall) (time : LocalTime) (data : String) : Backups where
  dir := pruneBackups call.faults (s.dir.create (backupName (escapePath call.relPath) time) data)
    (escapePath call.relPath)
  made := s.made ++ [⟨call.relPath, time, data⟩]

theorem backup_cases (call : WriteCall) (abs : List String) (s : Backups) :
    (backup call abs s).2 = s ∨ call.opened abs ≠ .error .notExist ∧ ∃ time,
      createConfigBackupFile call s.dir (escapePath call.relPath) = .ok time ∧
        ((∃ fault, call.copied abs = .error fault) ∨
          ∃ data, call.copied abs = .ok data ∧ (backup call abs s).2 = s.add call time data) := by
  unfold backup
  split
  case isTrue => exact .inl rfl
  case isFalse hexists =>
    cases hfolder : call.faults.folder with
    | some e => exact .inl rfl
    | none =>
      cases htime : createConfigBackupFile call s.dir (escapePath call.relPath) with
      | error e =>
        left
        simp only [htime]
      | ok time =>
        refine .inr ⟨hexists, time, rfl, ?_⟩
        simp only [htime]
        cases hcopied : call.copied abs with
        | error fault => exact .inl ⟨fault, rfl⟩
        | ok data => exact .inr ⟨data, rfl, rfl⟩

/-- A write makes a backup, leaves a copy that is not complete, or does not touch the backups. -/
theorem writeConfigFile_cases (u : Letters) (unmarshal : String → Except String Unit)
    (call : WriteCall) (s : Backups) :
    (writeConfigFile u unmarshal call s).2 = s ∨
      ∃ abs, Begins u unmarshal call abs ∧ ∃ time,
        createConfigBackupFile call s.dir (escapePath call.relPath) = .ok time ∧
        ((∃ fault, call.copied abs = .error fault) ∨
          ∃ data, call.copied abs = .ok data ∧
            (writeConfigFile u unmarshal call s).2 = s.add call time data) := by
  unfold writeConfigFile
  cases hlisted : listedConfigPath u call.relPath with
  | error e => exact .inl rfl
  | ok =>
    cases hinside : sandbox call.disk call.relPath with
    | error e => exact .inl rfl
    | ok abs =>
      cases hvalid : checkJSON u unmarshal call with
      | error e => exact .inl rfl
      | ok =>
        have hcases := backup_cases call abs s
        dsimp only
        -- what is reported after the backup does not change it
        generalize backup call abs s = out at hcases ⊢
        obtain ⟨result, s'⟩ := out
        have hsnd : (match (result, s') with
            | (.error e, s) => ((.error (.failed ("backup failed: " ++ e)), s) :
                Except WriteError Unit × Backups)
            | (.ok (), s) =>
              match call.faults.write with
              | some e => (.error (.failed e), s)
              | none => (.ok (), s)).2 = s' := by
          cases result with
          | error e => rfl
          | ok => cases call.faults.write <;> rfl
        rw [hsnd]
        cases hcases with
        | inl hsame => exact .inl hsame
        | inr hmade =>
          obtain ⟨hexists, hmade⟩ := hmade
          exact .inr ⟨abs, ⟨hlisted, hinside, hvalid, hexists⟩, hmade⟩

/-- What holds of the backups between two writes of a run, with the writes that follow. -/
structure Retained (s : Backups) (later : List WriteCall) : Prop where
  files : ∀ f ∈ s.dir.files, ∃ b ∈ s.made, b.file = f
  years : ∀ b ∈ s.made, 0 ≤ b.time.year
  earlier : ∀ b ∈ s.made, ∀ call ∈ later, ∀ i, b.time < call.now i
  increasing : ∀ config, ((s.of config).map (·.file.name)).Pairwise (· < ·)
  newest : ∀ config, ∀ b ∈ (s.of config).rtake backupKeep, b.file ∈ s.dir.files

variable {s : Backups} {call : WriteCall} {calls : List WriteCall} {time : LocalTime}
  {data : String}

theorem of_add (config : String) :
    (s.add call time data).of config =
      s.of config ++ if call.relPath = config then [⟨call.relPath, time, data⟩] else [] := by
  rw [Backups.of, Backups.add, List.filter_append, Backups.of]
  by_cases hconfig : call.relPath = config <;> simp [hconfig]

theorem mem_of {config : String} {b : Backup} :
    b ∈ s.of config ↔ b ∈ s.made ∧ b.config = config := by
  rw [Backups.of, List.mem_filter, decide_eq_true_iff]

/-- The name that is found is free, and its time is one of the clock's. -/
theorem of_createConfigBackupFile {dir : BackupDir} {escaped : String}
    (h : createConfigBackupFile call dir escaped = .ok time) :
    (∃ i, call.now i = time) ∧ backupName escaped time ∉ dir.names := by
  unfold createConfigBackupFile at h
  cases hcreate : call.faults.create with
  | some e => simp [hcreate] at h
  | none =>
    simp only [hcreate] at h
    cases hfind : ((List.range 100).map call.now).find? fun t =>
        backupName escaped t ∉ dir.names with
    | none =>
      rw [hfind] at h
      cases h
    | some t =>
      simp only [hfind, Except.ok.injEq] at h
      obtain ⟨i, -, hi⟩ := List.mem_map.1 (List.mem_of_find?_eq_some hfind)
      refine ⟨⟨i, hi.trans h⟩, ?_⟩
      rw [← h]
      simpa using List.find?_some hfind

/-- A backup of another config stays. -/
theorem file_mem_add_of_ne (hsafe : SafeWrite s call)
    (htime : createConfigBackupFile call s.dir (escapePath call.relPath) = .ok time)
    (hlisted : listedConfigPath u call.relPath = .ok ()) {b : Backup} (hb : b ∈ s.made)
    (hother : b.config ≠ call.relPath) (hfile : b.file ∈ s.dir.files) :
    b.file ∈ (s.add call time data).dir.files := by
  apply mem_pruneBackups_of_not_namedFor
  · rw [mem_create (of_createConfigBackupFile htime).2]
    exact .inl hfile
  · intro hnamed
    exact hsafe.apart b hb hother (clash_of_namedFor hlisted hnamed)

section

variable (hretained : Retained s (call :: calls)) (hsafe : SafeWrite s call)
  (htime : createConfigBackupFile call s.dir (escapePath call.relPath) = .ok time)

include hretained hsafe htime

/-- The new backup has a later name than those there were of the config. -/
theorem Retained.lt_new {b : Backup} (hb : b ∈ s.of call.relPath) :
    b.file.name < backupName (escapePath call.relPath) time := by
  obtain ⟨⟨i, rfl⟩, hfree⟩ := of_createConfigBackupFile htime
  have hle (c : Backup) (hc : c ∈ s.of call.relPath) :
      c.file.name ≤ backupName (escapePath call.relPath) (call.now i) := by
    obtain ⟨hmade, hconfig⟩ := mem_of.1 hc
    rw [Backup.file, hconfig]
    exact backupName_le _ (hretained.earlier c hmade call List.mem_cons_self i)
      (hretained.years c hmade) (hsafe.years i).2
  -- the last one is still there, so its name is not the new one
  obtain hnil | ⟨init, last, hlast⟩ := List.eq_nil_or_concat (s.of call.relPath)
  · rw [hnil] at hb
    cases hb
  · have hthere : last.file ∈ s.dir.files := by
      apply hretained.newest call.relPath
      rw [hlast, backupKeep, List.concat_eq_append, List.rtake_concat_succ]
      exact List.mem_append_right _ List.mem_cons_self
    have hne : last.file.name ≠ backupName (escapePath call.relPath) (call.now i) := by
      intro heq
      exact hfree (heq ▸ List.mem_map_of_mem hthere)
    have hlt := lt_of_le_of_ne (hle last (by simp [hlast])) hne
    have hincreasing := hretained.increasing call.relPath
    rw [hlast, List.concat_eq_append, List.map_append, List.pairwise_append] at hincreasing
    rw [hlast, List.concat_eq_append, List.mem_append, List.mem_singleton] at hb
    cases hb with
    | inl hb =>
      exact (hincreasing.2.2 _ (List.mem_map_of_mem hb) _ (by simp)).trans hlt
    | inr hb => rwa [hb]

variable (data) in
theorem Retained.increasing_add (config : String) :
    (((s.add call time data).of config).map (·.file.name)).Pairwise (· < ·) := by
  rw [of_add]
  by_cases hconfig : call.relPath = config
  · subst hconfig
    rw [if_pos rfl, List.map_append, List.pairwise_append]
    refine ⟨hretained.increasing _, List.pairwise_singleton _ _, ?_⟩
    intro name hname new hnew
    obtain ⟨b, hb, rfl⟩ := List.mem_map.1 hname
    rw [List.map_singleton, List.mem_singleton] at hnew
    rw [hnew]
    exact hretained.lt_new hsafe htime hb
  · rw [if_neg hconfig, List.append_nil]
    exact hretained.increasing config

/-- A file that could be a backup of the config is one. -/
theorem Retained.own (hlisted : listedConfigPath u call.relPath = .ok ()) {f : BackupFile}
    (hf : f ∈ (s.dir.create (backupName (escapePath call.relPath) time) data).files)
    (hnamed : NamedFor (escapePath call.relPath) f.name) :
    f.name ∈ ((s.add call time data).of call.relPath).map (·.file.name) := by
  rw [of_add, if_pos rfl, List.map_append, List.mem_append]
  rw [mem_create (of_createConfigBackupFile htime).2] at hf
  cases hf with
  | inl hf =>
    obtain ⟨b, hb, rfl⟩ := hretained.files f hf
    left
    apply List.mem_map_of_mem (f := fun b : Backup => b.file.name)
    rw [mem_of]
    refine ⟨hb, ?_⟩
    by_contra hother
    exact hsafe.apart b hb hother (clash_of_namedFor hlisted hnamed)
  | inr hf =>
    right
    rw [hf]
    exact List.mem_cons_self

theorem Retained.newest_add (hlisted : listedConfigPath u call.relPath = .ok ()) (config : String)
    {b : Backup} (hb : b ∈ ((s.add call time data).of config).rtake backupKeep) :
    b.file ∈ (s.add call time data).dir.files := by
  by_cases hconfig : call.relPath = config
  · subst hconfig
    apply mem_pruneBackups (hretained.increasing_add data hsafe htime call.relPath)
    · intro f hf hnamed
      exact hretained.own hsafe htime hlisted hf hnamed
    · rw [mem_create (of_createConfigBackupFile htime).2]
      rw [of_add, if_pos rfl, backupKeep, List.rtake_concat_succ, List.mem_append,
        List.mem_singleton] at hb
      cases hb with
      | inl hb =>
        left
        apply hretained.newest call.relPath
        rw [List.rtake_eq_reverse_take_reverse, List.mem_reverse] at hb ⊢
        exact List.take_subset_take_left _ (by decide) hb
      | inr hb =>
        right
        rw [hb]
        rfl
    · rw [List.rtake, List.length_map, ← List.map_drop]
      exact List.mem_map_of_mem (f := fun b : Backup => b.file.name) hb
  · rw [of_add, if_neg hconfig, List.append_nil] at hb
    obtain ⟨hmade, rfl⟩ := mem_of.1 (List.mem_of_mem_drop hb)
    exact file_mem_add_of_ne hsafe htime hlisted hmade (Ne.symm hconfig)
      (hretained.newest _ b hb)

end

/-! ## Runs -/

/-- Without a new backup nothing is lost. -/
theorem Retained.keeps (hretained : Retained s calls) (call : WriteCall) : Keeps s call s where
  newest := hretained.newest
  distinct := fun config => (hretained.increasing config).imp ne_of_lt
  others := fun _ _ _ hfile => hfile

theorem Retained.tail (hretained : Retained s (call :: calls)) : Retained s calls where
  files := hretained.files
  years := hretained.years
  earlier := fun b hb later hlater => hretained.earlier b hb later (List.mem_cons_of_mem _ hlater)
  increasing := hretained.increasing
  newest := hretained.newest

/-- What one write preserves. -/
theorem Retained.step (hretained : Retained s (call :: calls)) (hclock : Clocked (call :: calls))
    (hsafe : (∃ abs, Begins u unmarshal call abs) → SafeWrite s call) :
    Retained (writeConfigFile u unmarshal call s).2 calls ∧
      Keeps s call (writeConfigFile u unmarshal call s).2 := by
  obtain hsame | ⟨abs, hbegins, time, htime, hcopied⟩ :=
    writeConfigFile_cases u unmarshal call s
  · rw [hsame]
    exact ⟨hretained.tail, hretained.keeps call⟩
  · have hsafe := hsafe ⟨abs, hbegins⟩
    obtain ⟨data, hdata⟩ := hsafe.complete abs hbegins.inside
    obtain ⟨fault, hfault⟩ | ⟨data, -, hadded⟩ := hcopied
    · rw [hdata] at hfault
      cases hfault
    · rw [hadded]
      obtain ⟨⟨i, hi⟩, hfree⟩ := of_createConfigBackupFile htime
      have hincreasing := hretained.increasing_add data hsafe htime
      have hnewest (config : String) (b : Backup)
          (hb : b ∈ ((s.add call time data).of config).rtake backupKeep) :=
        hretained.newest_add hsafe htime hbegins.listed config hb
      have hmade {b : Backup} (hb : b ∈ (s.add call time data).made) :
          b ∈ s.made ∨ b = ⟨call.relPath, time, data⟩ := by
        simpa [Backups.add] using hb
      constructor
      · exact {
          files := by
            intro f hf
            have hf := pruneBackups_subset _ _ _ hf
            rw [mem_create hfree] at hf
            cases hf with
            | inl hf =>
              obtain ⟨b, hb, hfile⟩ := hretained.files f hf
              exact ⟨b, List.mem_append_left _ hb, hfile⟩
            | inr hf => exact ⟨_, List.mem_append_right _ List.mem_cons_self, hf.symm⟩
          years := by
            intro b hb
            cases hmade hb with
            | inl hb => exact hretained.years b hb
            | inr hb =>
              rw [hb, ← hi]
              exact (hsafe.years i).1
          earlier := by
            intro b hb later hlater j
            cases hmade hb with
            | inl hb => exact hretained.earlier b hb later (List.mem_cons_of_mem _ hlater) j
            | inr hb =>
              rw [hb, ← hi]
              exact (List.pairwise_cons.1 hclock).1 later hlater i j
          increasing := hincreasing
          newest := hnewest }
      · exact {
          newest := hnewest
          distinct := fun config => (hincreasing config).imp ne_of_lt
          others := fun b hb hother hfile =>
            file_mem_add_of_ne hsafe htime hbegins.listed hb hother hfile }

theorem Retained.keptPerFile (hretained : Retained s calls) (hclock : Clocked calls)
    (hsafe : SafeRun u unmarshal s calls) : KeptPerFile u unmarshal s calls := by
  induction calls generalizing s with
  | nil => trivial
  | cons call calls ih =>
    obtain ⟨hretained', hkeeps⟩ := hretained.step hclock hsafe.1
    exact ⟨hkeeps, ih hretained' (List.pairwise_cons.1 hclock).2 hsafe.2⟩

theorem retained_noBackups (calls : List WriteCall) : Retained noBackups calls where
  files := by simp [noBackups]
  years := by simp [noBackups]
  earlier := by simp [noBackups]
  increasing := by simp [noBackups, Backups.of]
  newest := by simp [noBackups, Backups.of]

end

/-- In every run of writes at increasing times in which each write meets the condition, each write
leaves the last three backups of every config and removes none of another config. -/
theorem backups_keptPerFile (u : Letters) (unmarshal : String → Except String Unit)
    (calls : List WriteCall) (hclock : Clocked calls)
    (hsafe : SafeRun u unmarshal noBackups calls) :
    KeptPerFile u unmarshal noBackups calls :=
  (retained_noBackups calls).keptPerFile hclock hsafe

/-! ## Two configs with one name -/

def sampleTree : LinkTree where
  entries := [(["server.properties"], .file), (["plugins"], .dir), (["plugins", "home"], .dir),
    (["plugins", "home", "a.yml"], .file), (["plugins", "home__a.yml"], .file)]
  nodup := by decide
  names := by decide
  below := by decide

def sampleDir : WorkDir where
  path := ["srv"]
  plain := by decide
  path_ne := by decide
  real := ["srv"]
  real_ne := by decide
  tree := some sampleTree

def sampleLetters : Letters where
  toLower := Char.toLower
  equalFold := fun a b => a.map Char.toLower = b.map Char.toLower

/-- A write at some minute. -/
def sampleWrite (relPath : String) (minute : Fin 60) : WriteCall where
  relPath := relPath
  content := "a: 1"
  disk := sampleDir
  data := fun _ => "a: 0"
  now := fun _ => ⟨2026, 3, 1, 12, minute, 0, 0, by decide, by decide, by decide, minute.2,
    by decide, by decide⟩

/-- Two configs with names apart, one of them written twice. -/
def apartWrites : List WriteCall :=
  [sampleWrite "server.properties" 0, sampleWrite "plugins/home/a.yml" 1,
    sampleWrite "server.properties" 2]

/-- A config, and then three times one whose backups have the same names. -/
def clashingWrites : List WriteCall :=
  [sampleWrite "plugins/home/a.yml" 0, sampleWrite "plugins/home__a.yml" 1,
    sampleWrite "plugins/home__a.yml" 2, sampleWrite "plugins/home__a.yml" 3]

theorem sampleTime_lt {relPath relPath' : String} {minute minute' : Fin 60}
    (h : minute < minute') (i j : Nat) :
    (sampleWrite relPath minute).now i < (sampleWrite relPath' minute').now j := by
  change LocalTime.fields _ < LocalTime.fields _
  simpa [LocalTime.fields, sampleWrite, List.cons_lt_cons_iff] using h

theorem safeWrite_sample {s : Backups} {relPath : String} {minute : Fin 60} {abs : List String}
    (hapart : ∀ b ∈ s.made, b.config ≠ relPath → ¬ Clash relPath b.config)
    (hinside : sandbox sampleDir relPath = .ok abs)
    (hcopied : (sampleWrite relPath minute).copied abs = .ok "a: 0") :
    SafeWrite s (sampleWrite relPath minute) where
  apart := hapart
  years := by
    intro i
    constructor <;> simp [sampleWrite]
  complete := by
    intro abs' hinside'
    obtain rfl : abs = abs' := Except.ok.inj (hinside.symm.trans hinside')
    exact ⟨_, hcopied⟩

theorem backups_keptPerFile_apart :
    KeptPerFile sampleLetters (fun _ => .ok ()) noBackups apartWrites := by
  refine backups_keptPerFile _ _ _ ?_ ?_
  · simp only [Clocked, apartWrites, List.pairwise_cons, List.forall_mem_cons,
      List.not_mem_nil, false_imp_iff, implies_true, and_true, List.Pairwise.nil]
    exact ⟨⟨sampleTime_lt (by decide), sampleTime_lt (by decide)⟩, sampleTime_lt (by decide)⟩
  · have hproperties : sandbox sampleDir "server.properties" =
        .ok ["srv", "server.properties"] := by
      decide +kernel
    have hhome : sandbox sampleDir "plugins/home/a.yml" =
        .ok ["srv", "plugins", "home", "a.yml"] := by
      decide +kernel
    refine ⟨fun _ => ?_, fun _ => ?_, fun _ => ?_, trivial⟩
    · exact safeWrite_sample (by decide +kernel) hproperties (by decide +kernel)
    · exact safeWrite_sample (by decide +kernel) hhome (by decide +kernel)
    · exact safeWrite_sample (by decide +kernel) hproperties (by decide +kernel)

/-- The third backup of the one config takes the place of the only one of the other. -/
theorem not_keptPerFile_clash :
    Clocked clashingWrites ∧
      ¬ KeptPerFile sampleLetters (fun _ => .ok ()) noBackups clashingWrites := by
  constructor
  · simp only [Clocked, clashingWrites, List.pairwise_cons, List.forall_mem_cons,
      List.not_mem_nil, false_imp_iff, implies_true, and_true, List.Pairwise.nil]
    refine ⟨⟨sampleTime_lt (by decide), sampleTime_lt (by decide), sampleTime_lt (by decide)⟩,
      ⟨sampleTime_lt (by decide), sampleTime_lt (by decide)⟩, sampleTime_lt (by decide)⟩
  · intro hkept
    let b : Backup := ⟨"plugins/home/a.yml", (sampleWrite "" 0).now 0, "a: 0"⟩
    have hgone : b ∈ ((writeConfigFiles sampleLetters (fun _ => .ok ()) noBackups
          clashingWrites).of b.config).rtake backupKeep ∧
        b.file ∉ (writeConfigFiles sampleLetters (fun _ => .ok ()) noBackups
          clashingWrites).dir.files := by
      decide +kernel
    exact hgone.2 (hkept.2.2.2.1.newest b.config b hgone.1)

end Konnekt.ConfigEditor
