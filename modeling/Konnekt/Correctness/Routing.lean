import Konnekt.Correctness.Runs
import Konnekt.Scheduler.Blocks
import Konnekt.Scheduler.Triggers

/-!
# The route of a backup trigger

A backup event seeds its runs with the port the trigger is meant to fire. The
engine does not execute trigger blocks: it fires `onComplete` for all of them, so
the seed is never read and a failed backup follows the edges of a completed one.
-/

namespace Konnekt.Scheduler

open Go Worklist

section

variable {W : Type}

/-! ## What an event launches -/

/-- What a fold ends with was there before, or came in with an element. -/
private theorem of_foldl {σ ι : Type} {f : σ → ι → σ} {S : σ → Prop} {P : ι → Prop}
    (hstep : ∀ s i, S (f s i) → S s ∨ P i) (l : List ι) (s : σ) (h : S (l.foldl f s)) :
    S s ∨ ∃ i ∈ l, P i := by
  induction l generalizing s with
  | nil => exact .inl h
  | cons i l ih =>
    rcases ih _ h with hhead | ⟨j, hj, hp⟩
    · exact (hstep s i hhead).imp_right fun hp => ⟨i, List.mem_cons_self, hp⟩
    · exact .inr ⟨j, List.mem_cons_of_mem _ hj, hp⟩

private theorem mem_launches_fireNode {now : Int} {g : Graph} {wants : Node → Bool}
    {seedData : GoMap Value} {label : String} {l : Launch} (s : Fired) (n : Node)
    (h : l ∈ (fireNode now g wants seedData label s n).launches) :
    l ∈ s.launches ∨ wants n = true ∧ l = launch g n label seedData := by
  unfold fireNode at h
  split at h
  · rename_i hwants
    split at h
    · exact .inl h
    · exact (List.mem_append.1 h).imp_right fun hnew => ⟨hwants, List.mem_singleton.1 hnew⟩
  · exact .inl h

/-- Every run an event launches begins at a node the event is for, in an enabled graph that
answers to the event's server. -/
theorem mem_launches_fireEventTriggers {svc : Services W} {w : W} {graphs : List Graph}
    {serverID : String} {wants : Node → Bool} {seedData : GoMap Value} {label : String}
    {lastFired : LastFired} {l : Launch}
    (h : l ∈ (fireEventTriggers svc w graphs serverID wants seedData label lastFired).launches) :
    ∃ g ∈ graphs, g.enabled = true ∧ graphAnswersTo svc w g serverID = true ∧
      ∃ n ∈ g.nodes, wants n = true ∧ l = launch g n label seedData := by
  have hgraph := of_foldl (S := fun s : Fired => l ∈ s.launches)
    (fun s g => of_foldl (S := fun s : Fired => l ∈ s.launches) mem_launches_fireNode g.nodes s)
    _ _ h
  rcases hgraph with hnil | ⟨g, hg, hn⟩
  · cases hnil
  · rw [List.mem_filter, Bool.and_eq_true] at hg
    exact ⟨g, hg.1, hg.2.1, hg.2.2, hn⟩

@[simp] theorem initialOutputs_launch (g : Graph) (n : Node) (label : String)
    (seedData : GoMap Value) :
    initialOutputs (launch g n label seedData) = (launch g n label seedData).seed := by
  have hseed : (launch g n label seedData).seed.lookup "trigger" = some seedData :=
    AList.lookup_insert _
  unfold initialOutputs
  split
  · rfl
  · rw [hseed]

/-- The entry node of a launched run has the event's data as its outputs. -/
theorem lookup_seed_launch (g : Graph) (n : Node) (label : String) (seedData : GoMap Value) :
    (launch g n label seedData).seed.lookup n.id = some seedData := by
  by_cases hid : n.id = "trigger"
  · rw [hid]
    exact AList.lookup_insert _
  · refine (AList.lookup_insert_ne hid).trans ?_
    exact AList.lookup_insert _

@[simp] theorem BackupEvent.lookup_route (ev : BackupEvent) :
    ev.seedData.lookup "_route" = some (.str ev.route) := by
  cases ev <;> rfl

/-! ## Following a route -/

/-- The targets of the control edges that leave a node on a port. -/
def controlTargets (g : Graph) (nodeID port : String) : List String :=
  (g.edges.filter fun e => e.kind = "control" ∧ e.source = nodeID ∧ e.sourcePort = port).map
    (·.target)

namespace Run

variable (r : Run W)

/-- The run's entry node is seeded with a port, and whenever it executes it records that port
and asks for exactly the targets of the control edges on it. -/
structure FollowsRoute (port : String) : Prop where
  seeded : ∃ data, (initialOutputs r.launch).lookup r.launch.entryNodeID = some data ∧
    data.lookup "_route" = some (.str port)
  executes : ∀ c item rest, r.Reaches c → c.queue = item :: rest →
    item.nodeID = r.launch.entryNodeID →
    ∃ t record, turn r.env c.state item = .ok t ∧
      t.state.nodes = c.state.nodes ++ [record] ∧ record.nodeID = r.launch.entryNodeID ∧
      record.firedPort = port ∧
      t.next.map (·.nodeID) = controlTargets r.launch.graph r.launch.entryNodeID port
  recorded : ∀ o, r.output = .ok o → ∀ record ∈ o.record.nodes,
    record.nodeID = r.launch.entryNodeID → record.firedPort = port

variable {r}

/-- A trigger node fires `onComplete`, whatever it is seeded with. -/
theorem executeNode_trigger {env : RunEnv W} {n : Node} {entry : BlockEntry W}
    (hentry : env.registry.lookup n.type = some entry) (htrigger : entry.blockDef.isTrigger = true)
    (st : RunState W) : executeNode env n st = .ok (.done "onComplete", st) := by
  rw [executeNode, hentry]
  exact if_pos htrigger

/-- A pass of the queue loop over a trigger node. -/
theorem turn_triggerNode {env : RunEnv W} {n : Node} {entry : BlockEntry W} {item : Work}
    (hnode : env.graph.nodeByID item.nodeID = some n)
    (hentry : env.registry.lookup n.type = some entry) (htrigger : entry.blockDef.isTrigger = true)
    (p : Progress W) : turn env p item =
      .ok ⟨p.add env.svc n (.done "onComplete") p.run,
        followEdges env.graph n.id "onComplete", env.expired p.run.world⟩ := by
  unfold turn
  rw [hnode]
  dsimp only
  rw [executeNode_trigger hentry htrigger]
  rfl

/-- A run that enters at a trigger node follows `onComplete`. -/
private theorem executes_onComplete {n : Node} {entry : BlockEntry W}
    (hnode : r.launch.graph.nodeByID r.launch.entryNodeID = some n)
    (hentry : r.registry.lookup n.type = some entry) (htrigger : entry.blockDef.isTrigger = true)
    (p : Progress W) (item : Work) (hitem : item.nodeID = r.launch.entryNodeID) :
    ∃ t record, turn r.env p item = .ok t ∧ t.state.nodes = p.nodes ++ [record] ∧
      record.nodeID = r.launch.entryNodeID ∧ record.firedPort = "onComplete" ∧
      t.next.map (·.nodeID) =
        controlTargets r.launch.graph r.launch.entryNodeID "onComplete" := by
  have hid := Graph.id_of_nodeByID hnode
  refine ⟨_, nodeRunRecord r.svc n (.done "onComplete") p.run.world p.run.world,
    turn_triggerNode (by rw [hitem]; exact hnode) hentry htrigger p, rfl, hid, rfl, ?_⟩
  rw [← hid]
  exact List.map_map

/-- The records of a run that enters at a trigger node say so. -/
private theorem recorded_onComplete {n : Node} {entry : BlockEntry W}
    (hnode : r.launch.graph.nodeByID r.launch.entryNodeID = some n)
    (hentry : r.registry.lookup n.type = some entry) (htrigger : entry.blockDef.isTrigger = true)
    {o : RunOutput W} (ho : r.output = .ok o) {record : NodeRunRecord}
    (hmem : record ∈ o.record.nodes) (hrecord : record.nodeID = r.launch.entryNodeID) :
    record.firedPort = "onComplete" := by
  by_cases hadm : r.Admitted
  · obtain ⟨c, stopped, hloop, rfl⟩ := loop_of_output hadm ho
    have hinv := loop_induction (P := fun _ p => ∀ rec ∈ p.nodes,
        rec.nodeID = r.launch.entryNodeID → rec.firedPort = "onComplete")
      (fun _ p item t hp hknown hturn rec hrec hid => ?_) maxNodesPerRun hloop
      (fun rec hrec => absurd hrec List.not_mem_nil)
    · exact hinv record hmem hrecord
    · obtain ⟨m, res, run, hm, hexec, rfl⟩ := turn_spec hturn hknown
      rcases List.mem_append.1 hrec with hold | hnew
      · exact hp rec hold hid
      · obtain rfl := List.mem_singleton.1 hnew
        obtain rfl : m = n := by
          have hm' := Graph.id_of_nodeByID hm
          have hmid : m.id = r.launch.entryNodeID := hid
          rw [← hm', hmid] at hm
          exact Option.some.inj (hm.symm.trans hnode)
        rw [executeNode_trigger hentry htrigger] at hexec
        cases hexec
        rfl
  · rw [nodes_of_not_admitted hadm ho] at hmem
    cases hmem

/-- An admitted run of a trigger does not follow any other route. -/
private theorem eq_onComplete_of_followsRoute {n : Node} {entry : BlockEntry W} {port : String}
    (hadm : r.Admitted) (hnode : r.launch.graph.nodeByID r.launch.entryNodeID = some n)
    (hentry : r.registry.lookup n.type = some entry) (htrigger : entry.blockDef.isTrigger = true)
    (h : r.FollowsRoute port) : port = "onComplete" := by
  obtain ⟨t, record, hturn, hnodes, -, hport, -⟩ :=
    h.executes (initialConfig r.launch r.world) _ [] ⟨hadm, .refl⟩ rfl rfl
  obtain ⟨t', record', hturn', hnodes', -, hport', -⟩ :=
    executes_onComplete hnode hentry htrigger (initialConfig r.launch r.world).state
      ⟨r.launch.entryNodeID, "in"⟩ rfl
  rw [hturn] at hturn'
  cases hturn'
  obtain rfl : record = record' := by simpa [hnodes] using hnodes'
  exact hport.symm.trans hport'

end Run

/-- The trigger block of backups is a trigger in every registry. -/
theorem lookup_backup {h : Host W} {reg : BlockRegistry W} (hreg : BuiltinFirst h reg) :
    ∃ entry, reg.lookup "trigger.backup" = some entry ∧ entry.blockDef.isTrigger = true := by
  have hbuiltin : ∃ entry, (builtinRegistry h).lookup "trigger.backup" = some entry ∧
      entry.blockDef.isTrigger = true := by
    rw [lookup_builtinRegistry]
    exact ⟨_, rfl, rfl⟩
  obtain ⟨entry, hlookup, htrigger⟩ := hbuiltin
  exact ⟨entry, hreg.lookup hlookup, htrigger⟩

/-- A run a backup event launched at a backup trigger follows the event's route exactly when
the backup was completed, or the run does not get to its first node. -/
theorem followsRoute_iff_completed {r : Run W} {h : Host W} {w : W} {graphs : List Graph}
    {ev : BackupEvent} {lastFired : LastFired} {n : Node}
    (hlaunch : r.launch ∈ (onBackupEvent r.svc w graphs ev lastFired).launches)
    (hreg : BuiltinFirst h r.registry)
    (hnode : r.launch.graph.nodeByID r.launch.entryNodeID = some n)
    (htype : n.type = "trigger.backup") :
    r.FollowsRoute ev.route ↔
      (∃ serverID filename, ev = .completed serverID filename) ∨ ¬ r.Admitted := by
  obtain ⟨entry, hentry, htrigger⟩ := lookup_backup hreg
  rw [← htype] at hentry
  have hseeded : ∃ data, (initialOutputs r.launch).lookup r.launch.entryNodeID = some data ∧
      data.lookup "_route" = some (.str ev.route) := by
    obtain ⟨g, -, -, -, m, -, -, hl⟩ := mem_launches_fireEventTriggers hlaunch
    rw [hl, initialOutputs_launch]
    exact ⟨_, lookup_seed_launch _ _ _ _, ev.lookup_route⟩
  constructor
  · intro hroute
    by_cases hadm : r.Admitted
    · have hport := Run.eq_onComplete_of_followsRoute hadm hnode hentry htrigger hroute
      cases ev with
      | completed serverID filename => exact .inl ⟨serverID, filename, rfl⟩
      | failed serverID => simp [BackupEvent.route] at hport
    · exact .inr hadm
  · rintro (⟨serverID, filename, rfl⟩ | hadm)
    · exact ⟨hseeded,
        fun c item _ _ _ hitem => Run.executes_onComplete hnode hentry htrigger c.state item hitem,
        fun o ho record hmem hrecord =>
          Run.recorded_onComplete hnode hentry htrigger ho hmem hrecord⟩
    · refine ⟨hseeded, fun c _ _ hreach => absurd hreach.1 hadm, fun o ho record hmem => ?_⟩
      rw [Run.nodes_of_not_admitted hadm ho] at hmem
      cases hmem

end

/-! ## A failed backup -/

/-- A backup trigger with a notification on either route. -/
def backupGraph : Graph where
  id := "g"
  name := "backup"
  serverID := "s1"
  enabled := true
  nodes := [⟨"t", "trigger.backup", ∅⟩, ⟨"ok", "action.notify", ∅⟩, ⟨"bad", "action.notify", ∅⟩]
  edges := [⟨"e1", "control", "t", "onComplete", "ok", "trigger"⟩,
    ⟨"e2", "control", "t", "onFailed", "bad", "trigger"⟩]
  createdAt := 0
  updatedAt := 0

/-- The run a failed backup of its server launches. -/
def failedBackupRun : Run Unit where
  svc := idleHost.toServices
  registry := builtinRegistry idleHost
  running := false
  runID := "r"
  launch := launch backupGraph ⟨"t", "trigger.backup", ∅⟩ "event:backup:failed"
    (BackupEvent.failed "s1").seedData
  world := ()

private theorem launched_failedBackupRun : failedBackupRun.launch ∈
    (onBackupEvent idleHost.toServices () [backupGraph] (.failed "s1") ∅).launches :=
  List.mem_singleton_self _

private theorem admitted_failedBackupRun : failedBackupRun.Admitted := by
  refine ⟨rfl, ?_⟩
  show refusal idleHost.toServices (builtinRegistry idleHost) backupGraph () = none
  refine refusal_builtinRegistry (fun e he => ?_) (by decide)
  have hkind : ∀ e ∈ backupGraph.edges, e.kind ≠ "data" := by decide
  rw [dataTypeIssue, if_neg (hkind e he)]

/-- The run of a failed backup does not follow the route of failed backups. -/
theorem not_followsRoute_failedBackup : failedBackupRun.launch ∈
      (onBackupEvent idleHost.toServices () [backupGraph] (.failed "s1") ∅).launches ∧
    failedBackupRun.Admitted ∧
    ¬ failedBackupRun.FollowsRoute (BackupEvent.failed "s1").route := by
  refine ⟨launched_failedBackupRun, admitted_failedBackupRun, fun hroute => ?_⟩
  obtain ⟨entry, hentry, htrigger⟩ := lookup_backup (BuiltinFirst.builtin (h := idleHost))
  have hport := Run.eq_onComplete_of_followsRoute (n := ⟨"t", "trigger.backup", ∅⟩)
    admitted_failedBackupRun rfl hentry htrigger hroute
  exact absurd hport (by decide)

/-- The condition at that run. -/
theorem followsRoute_iff_completed_failedBackup :
    failedBackupRun.FollowsRoute (BackupEvent.failed "s1").route ↔
      (∃ serverID filename, BackupEvent.failed "s1" = .completed serverID filename) ∨
        ¬ failedBackupRun.Admitted :=
  followsRoute_iff_completed (r := failedBackupRun) (h := idleHost)
    (n := ⟨"t", "trigger.backup", ∅⟩) launched_failedBackupRun
    (show BuiltinFirst idleHost (builtinRegistry idleHost) from .builtin) rfl rfl

end Konnekt.Scheduler
