import Konnekt.Correctness.ServerConfigs
import Konnekt.Run.Labelled

/-!
# The active server

`active_server.json` names one server of `servers.json`. The rule is a relation of two
files: a repair step restores it when the app starts, when a server is added and when one
is deleted, and every selection writes the file directly.
-/

namespace Konnekt.Server

open Go Labelled

/-! ## The two files -/

/-- The files of a data directory that the rule is about, each absent until it is written. -/
structure DataFiles where
  servers : Option (List ServerConfig)
  active : Option String
  deriving DecidableEq, Repr

namespace DataFiles

/-- `GetServerConfigs`. -/
def configs (f : DataFiles) : List ServerConfig := f.servers.getD []

/-- `GetActiveServerID`. -/
def activeID (f : DataFiles) : String := f.active.getD ""

/-- `writeServerConfigs`. -/
def writeServerConfigs (configs : List ServerConfig) (f : DataFiles) : DataFiles :=
  { f with servers := some configs }

/-- `SetActiveServerID`. -/
def setActiveServerID (id : String) (f : DataFiles) : DataFiles := { f with active := some id }

/-- The id a repair picks: that of the first configuration, or none. -/
def firstID (f : DataFiles) : String :=
  match f.configs with
  | [] => ""
  | c :: _ => c.id

/-- `reconcileActiveServer`. -/
def reconcileActiveServer (f : DataFiles) : DataFiles :=
  if f.configs.any (·.id = f.activeID) then f
  -- both empty: nothing to name, and the file is not created just to say so
  else if f.firstID = f.activeID then f
  else f.setActiveServerID f.firstID

/-- The error of `validServerID`. -/
def serverIDError (id : String) : String :=
  if id ∈ ["", ".", ".."] then "invalid server id " ++ quote id
  else "invalid server id " ++ quote id ++ ": must be a single path segment"

/-- `SaveServerConfig`: its error, and the files afterwards. -/
def saveServerConfig (cfg : ServerConfig) (f : DataFiles) : Option String × DataFiles :=
  if validServerID cfg.id then
    let cfg := sanitizeTarget cfg
    let written := f.writeServerConfigs (putConfig cfg f.configs)
    if f.configs.any (·.id = cfg.id) then (none, written)
    else (none, written.reconcileActiveServer)
  else (some (serverIDError cfg.id), f)

/-- `DeleteServerConfig`. -/
def deleteServerConfig (id : String) (f : DataFiles) : DataFiles :=
  (f.writeServerConfigs (removeConfig id f.configs)).reconcileActiveServer

/-- The id names a server, or is empty with no server to name. -/
def Names (f : DataFiles) (id : String) : Prop :=
  (∃ c ∈ f.configs, c.id = id) ∨ id = "" ∧ f.configs = []

/-- The rule the app reads the two files by. -/
def ActiveExists (f : DataFiles) : Prop := f.Names f.activeID

instance (f : DataFiles) (id : String) : Decidable (f.Names id) :=
  inferInstanceAs (Decidable (_ ∨ _))

instance (f : DataFiles) : Decidable f.ActiveExists :=
  inferInstanceAs (Decidable (f.Names f.activeID))

end DataFiles

/-! ## The service -/

/-- The service: the directory it works in, and the files of every directory. -/
structure ConfigService (D : Type) where
  dataDir : D
  disk : D → DataFiles

/-- The calls that write one of the two files. -/
inductive ConfigServiceCall (D : Type) where
  | setDataDir (dir : D)
  | saveServerConfig (cfg : ServerConfig)
  | deleteServerConfig (id : String)
  | setActiveServerID (id : String)
  deriving DecidableEq

namespace ConfigService

variable {D : Type} [DecidableEq D]

/-- The files the service works on. -/
def files (s : ConfigService D) : DataFiles := s.disk s.dataDir

/-- The service once it has written its files. -/
def put (s : ConfigService D) (f : DataFiles) : ConfigService D :=
  { s with disk := Function.update s.disk s.dataDir f }

@[simp] theorem files_put (s : ConfigService D) (f : DataFiles) : (s.put f).files = f := by
  simp [files, put]

/-- One call with its error. -/
def call (s : ConfigService D) : ConfigServiceCall D → Option String × ConfigService D
  | .setDataDir dir =>
    let s := { s with dataDir := dir }
    (none, s.put s.files.reconcileActiveServer)
  | .saveServerConfig cfg =>
    let (err, f) := s.files.saveServerConfig cfg
    (err, s.put f)
  | .deleteServerConfig id => (none, s.put (s.files.deleteServerConfig id))
  | .setActiveServerID id => (none, s.put (s.files.setActiveServerID id))

/-- The service under calls in any order. -/
def system (D : Type) [DecidableEq D] :
    System (ConfigService D) (ConfigServiceCall D) (Option String) where
  act c s := s.call c
  enabled _ _ := True

/-- Every call is allowed at any time. -/
def anyCall : History (ConfigService D) (ConfigServiceCall D) → ConfigService D →
    ConfigServiceCall D → Prop := fun _ _ _ => True

end ConfigService

/-! ## What each call keeps -/

namespace DataFiles

variable {f : DataFiles} {id : String} {cfg : ServerConfig}

theorem reconcileActiveServer_of_exists (h : f.ActiveExists) : f.reconcileActiveServer = f := by
  unfold reconcileActiveServer
  rcases h with ⟨c, hc, hid⟩ | ⟨hactive, hconfigs⟩
  · rw [if_pos]
    exact List.any_eq_true.2 ⟨c, hc, by simpa using hid⟩
  · simp [hconfigs, hactive, firstID]

theorem names_firstID (f : DataFiles) : f.Names f.firstID := by
  unfold Names firstID
  cases f.configs with
  | nil => exact .inr ⟨rfl, rfl⟩
  | cons c configs => exact .inl ⟨c, List.mem_cons_self, rfl⟩

/-- The repair establishes the rule from any files. -/
theorem activeExists_reconcileActiveServer (f : DataFiles) :
    f.reconcileActiveServer.ActiveExists := by
  unfold reconcileActiveServer
  split
  · next hany =>
    obtain ⟨c, hc, hid⟩ := List.any_eq_true.1 hany
    exact .inl ⟨c, hc, by simpa using hid⟩
  · split
    · next hsame =>
      have hnames := f.names_firstID
      rwa [hsame] at hnames
    · exact f.names_firstID

theorem exists_id_putConfig {configs : List ServerConfig} (h : ∃ c ∈ configs, c.id = id) :
    ∃ c ∈ putConfig cfg configs, c.id = id := by
  induction configs with
  | nil => simp at h
  | cons c configs ih =>
    unfold putConfig
    split
    · next hsame =>
      obtain ⟨d, hd, hid⟩ := h
      rcases List.mem_cons.1 hd with rfl | hd
      · exact ⟨cfg, List.mem_cons_self, hsame.symm.trans hid⟩
      · exact ⟨d, List.mem_cons_of_mem _ hd, hid⟩
    · obtain ⟨d, hd, hid⟩ := h
      rcases List.mem_cons.1 hd with rfl | hd
      · exact ⟨d, List.mem_cons_self, hid⟩
      · obtain ⟨e, he, hid⟩ := ih ⟨d, hd, hid⟩
        exact ⟨e, List.mem_cons_of_mem _ he, hid⟩

theorem activeExists_saveServerConfig (h : f.ActiveExists) (cfg : ServerConfig) :
    (f.saveServerConfig cfg).2.ActiveExists := by
  unfold saveServerConfig
  split
  · dsimp only
    split
    · next hknown =>
      -- the server is there already, so the list is not empty and the id is still in it
      rcases h with hnamed | ⟨-, hempty⟩
      · exact .inl (exists_id_putConfig hnamed)
      · rw [hempty] at hknown
        cases hknown
    · exact activeExists_reconcileActiveServer _
  · exact h

theorem activeExists_deleteServerConfig (f : DataFiles) (id : String) :
    (f.deleteServerConfig id).ActiveExists :=
  activeExists_reconcileActiveServer _

/-- A server that is not the active one goes without a repair. -/
theorem activeID_deleteServerConfig (h : f.ActiveExists) (hother : f.activeID ≠ id) :
    (f.deleteServerConfig id).activeID = f.activeID := by
  have hkept : (f.writeServerConfigs (removeConfig id f.configs)).ActiveExists := by
    rcases h with ⟨c, hc, hid⟩ | ⟨hactive, hempty⟩
    · refine .inl ⟨c, List.mem_filter.2 ⟨hc, ?_⟩, hid⟩
      simpa using hid.trans_ne hother
    · refine .inr ⟨hactive, ?_⟩
      rw [hempty]
      rfl
  rw [deleteServerConfig, reconcileActiveServer_of_exists hkept]
  rfl

end DataFiles

/-! ## Runs -/

namespace ConfigService

variable {D : Type} [DecidableEq D] {s₀ s : ConfigService D}
  {h : History (ConfigService D) (ConfigServiceCall D)}

/-- The app has started by one of these calls. -/
def Started (h : History (ConfigService D) (ConfigServiceCall D)) : Prop :=
  ∃ e ∈ h, ∃ dir, e.2 = .setDataDir dir

/-- What a call is to leave behind: the rule, and the active id of a server that is not the one
deleted. -/
def LeavesActive (e : ConfigService D × ConfigServiceCall D) : Prop :=
  (e.1.call e.2).2.files.ActiveExists ∧
    ∀ id, e.2 = .deleteServerConfig id → e.1.files.activeID ≠ id →
      (e.1.call e.2).2.files.activeID = e.1.files.activeID

/-- A selection is of a server that is there, or of none when there is none. -/
def SelectsExisting (e : ConfigService D × ConfigServiceCall D) : Prop :=
  ∀ id, e.2 = .setActiveServerID id → e.1.files.Names id

theorem leavesActive_setDataDir (s : ConfigService D) (dir : D) :
    LeavesActive (s, .setDataDir dir) := by
  refine ⟨?_, fun id hid => nomatch hid⟩
  simp only [call, files_put]
  exact DataFiles.activeExists_reconcileActiveServer _

/-- A call that finds the rule leaves it, with a selection of an existing server. -/
theorem leavesActive_call {c : ConfigServiceCall D} (hactive : s.files.ActiveExists)
    (hselects : SelectsExisting (s, c)) : LeavesActive (s, c) := by
  cases c with
  | setDataDir dir => exact leavesActive_setDataDir s dir
  | saveServerConfig cfg =>
    refine ⟨?_, fun id hid => nomatch hid⟩
    simp only [call, files_put]
    exact DataFiles.activeExists_saveServerConfig hactive cfg
  | deleteServerConfig id =>
    simp only [LeavesActive, call, files_put]
    refine ⟨DataFiles.activeExists_deleteServerConfig _ _, ?_⟩
    rintro id ⟨⟩ hother
    exact DataFiles.activeID_deleteServerConfig hactive hother
  | setActiveServerID id =>
    refine ⟨?_, fun id hid => nomatch hid⟩
    simp only [call, files_put]
    exact hselects id rfl

/-- A selection leaves the rule only if it is of a server that is there. -/
theorem selectsExisting_of_leavesActive {c : ConfigServiceCall D} (h : LeavesActive (s, c)) :
    SelectsExisting (s, c) := by
  rintro id rfl
  have hrule := h.1
  simp only [call, files_put] at hrule
  exact hrule

/-- Since the app started, the rule holds after every call of a run as long as every selection
is of an existing server. -/
theorem activeExists_of_selects (hrun : Run (system D) anyCall s₀ h s) (hstarted : Started h)
    (hselects : ∀ newer older e, h = newer ++ e :: older → Started older → SelectsExisting e) :
    s.files.ActiveExists := by
  induction hrun with
  | nil =>
    obtain ⟨e, he, -⟩ := hstarted
    cases he
  | @act h s hrun c _ _ ih =>
    by_cases hbefore : Started h
    · have hactive := ih hbefore fun newer older e hsplit =>
        hselects ((s, c) :: newer) older e (by rw [hsplit]; rfl)
      exact (leavesActive_call hactive (hselects [] h (s, c) rfl hbefore)).1
    · obtain ⟨e, he, dir, hdir⟩ := hstarted
      rcases List.mem_cons.1 he with rfl | he
      · cases hdir
        exact (leavesActive_setDataDir s dir).1
      · exact absurd ⟨e, he, dir, hdir⟩ hbefore

/-- From the first start of the app on, every call of a run leaves an existing server active
exactly if every selection since then is of one. -/
theorem activeExists_run_iff (hrun : Run (system D) anyCall s₀ h s) :
    (∀ newer older e, h = newer ++ e :: older → Started (e :: older) → LeavesActive e) ↔
      ∀ newer older e, h = newer ++ e :: older → Started older → SelectsExisting e := by
  constructor
  · intro hleaves newer older e hsplit hstarted
    obtain ⟨d, hd, hdir⟩ := hstarted
    exact selectsExisting_of_leavesActive
      (hleaves newer older e hsplit ⟨d, List.mem_cons_of_mem _ hd, hdir⟩)
  · intro hselects newer older e hsplit hstarted
    by_cases hbefore : Started older
    · have hactive := activeExists_of_selects (hsplit ▸ hrun).before.1 hbefore
        fun newer' older' e' hsplit' => hselects (newer ++ e :: newer') older' e' (by
          rw [hsplit, hsplit', List.append_assoc, List.cons_append])
      exact leavesActive_call hactive (hselects newer older e hsplit hbefore)
    · obtain ⟨d, hd, dir, hdir⟩ := hstarted
      rcases List.mem_cons.1 hd with rfl | hd
      · obtain ⟨s, c⟩ := d
        cases hdir
        exact leavesActive_setDataDir s dir
      · exact absurd ⟨d, hd, dir, hdir⟩ hbefore

/-! ## Two servers -/

/-- An install of two servers, on disk before the app starts. -/
def twoServers : ConfigService Unit where
  dataDir := ()
  disk _ := ⟨some [{ id := "a" }, { id := "b" }], some "b"⟩

theorem twoServers_run (calls : List (ConfigServiceCall Unit)) : Run (system Unit) anyCall twoServers
    ((system Unit).play twoServers calls).1 ((system Unit).play twoServers calls).2 := by
  apply System.Playable.run
  induction calls with
  | nil => trivial
  | cons c calls ih => exact ⟨ih, trivial, trivial⟩

theorem twoServers_leavesActive : LeavesActive
    (((system Unit).play twoServers [.setActiveServerID "a", .setDataDir ()]).2,
      .deleteServerConfig "b") := by
  refine (activeExists_run_iff (twoServers_run
    [.deleteServerConfig "b", .setActiveServerID "a", .setDataDir ()])).2 ?_ [] _ _ rfl
      ⟨(twoServers, .setDataDir ()), by simp [System.play], (), rfl⟩
  intro newer older e hsplit _ id hid
  have hmem : e ∈ ((system Unit).play twoServers
      [.deleteServerConfig "b", .setActiveServerID "a", .setDataDir ()]).1 := by
    rw [hsplit]
    exact List.mem_append_right _ List.mem_cons_self
  simp only [System.play, List.mem_cons, List.not_mem_nil, or_false] at hmem
  rcases hmem with rfl | rfl | rfl
  · cases hid
  · cases hid
    decide
  · cases hid

/-- A selection of a server that is not there is what the file names. -/
theorem not_activeExists_run : ¬ ∀ (h : History (ConfigService Unit) (ConfigServiceCall Unit))
    (s : ConfigService Unit), Run (system Unit) anyCall twoServers h s → Started h →
      s.files.ActiveExists := by
  intro hall
  have hactive := hall _ _ (twoServers_run [.setActiveServerID "gone", .setDataDir ()])
    ⟨(twoServers, .setDataDir ()), by simp [System.play], (), rfl⟩
  revert hactive
  decide

end ConfigService

end Konnekt.Server
