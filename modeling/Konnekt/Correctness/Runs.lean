import Konnekt.Scheduler.Blocks
import Konnekt.Scheduler.Engine

/-!
# Runs

A run put together with everything it depends on, the configurations its queue
loop passes through when no cap cuts it off, and what one pass of the loop does.
-/

namespace Konnekt.Scheduler

open Go Worklist

variable {W : Type}

/-- A node is found under its own id. -/
theorem Graph.id_of_nodeByID {g : Graph} {id : String} {n : Node} (h : g.nodeByID id = some n) :
    n.id = id := by
  have hfound := List.find?_some h
  exact beq_iff_eq.1 hfound

/-- No embedded block names a destination for its files. -/
private theorem builtin_without_destination {h : Host W} {id : String} {entry : BlockEntry W}
    (hb : (builtinRegistry h).lookup id = some entry) (f : ConfigField)
    (hf : f ∈ entry.blockDef.configSchema) : f.type ≠ destinationFieldType := by
  have hall : ((builtinBlocks h).all fun b =>
      b.1.configSchema.all fun f => f.type != destinationFieldType) = true := rfl
  rw [lookup_builtinRegistry, Option.map_eq_some_iff] at hb
  obtain ⟨b, hfind, rfl⟩ := hb
  have hfields := List.all_eq_true.1 hall b (List.mem_of_find?_eq_some hfind)
  simpa using List.all_eq_true.1 hfields f hf

/-- A graph of embedded blocks is refused for its data wires only. -/
theorem refusal_builtinRegistry {h : Host W} {svc : Services W} {g : Graph} {w : W}
    (hdata : ∀ e ∈ g.edges, dataTypeIssue g (builtinRegistry h) e = none)
    (hkeep : ∀ n ∈ g.nodes, n.type ≠ dhPublishBlockID) :
    refusal svc (builtinRegistry h) g w = none := by
  have htypes : validateGraphDataTypes g (builtinRegistry h) = [] :=
    List.filterMap_eq_nil_iff.2 hdata
  have hdest : ∀ dests, validateGraphDestinations g (builtinRegistry h) dests = [] := by
    refine fun dests => List.flatMap_eq_nil_iff.2 fun n _ => ?_
    cases hentry : (builtinRegistry h).lookup n.type with
    | none => rfl
    | some entry =>
      refine List.filterMap_eq_nil_iff.2 fun f hf => ?_
      rw [destinationIssue, if_neg (builtin_without_destination hentry f hf)]
  have hretention : validateGraphRetention g = [] := by
    refine List.filterMap_eq_nil_iff.2 fun n hn => ?_
    rw [retentionIssue, if_neg (hkeep n hn)]
  unfold refusal
  simp only [htypes, hdest, hretention, issueSentences, List.map_nil, ne_eq, not_true_eq_false,
    if_false]

/-- What a run is: the services and blocks it uses, whether another run of its graph is
active, its record's id, what started it and the world it begins in. -/
structure Run (W : Type) where
  svc : Services W
  registry : BlockRegistry W
  running : Bool
  runID : String
  launch : Launch
  world : W

namespace Run

variable (r : Run W)

def env : RunEnv W := runEnv r.svc r.registry r.launch r.world

def output : Outcome (RunOutput W) :=
  executeGraph r.svc r.registry r.running r.runID r.launch r.world

/-- The run gets to its queue: no other run is active and the graph passes its checks. -/
def Admitted : Prop :=
  r.running = false ∧ refusal r.svc r.registry r.launch.graph r.world = none

/-- The configurations of the queue loop without a cap. -/
def Reaches (c : Config (Progress W) Work) : Prop :=
  r.Admitted ∧ Steps (known r.launch.graph) (turn r.env) (initialConfig r.launch r.world) c

end Run

/-- A pass of the loop executes the item's node. -/
theorem turn_spec {env : RunEnv W} {p : Progress W} {item : Work}
    {t : Turn (Progress W) Work} (h : turn env p item = .ok t)
    (hknown : known env.graph item = true) :
    ∃ node res run, env.graph.nodeByID item.nodeID = some node ∧
      executeNode env node p.run = .ok (res, run) ∧
      t = { state := p.add env.svc node res run,
            next := followEdges env.graph node.id (firedPort res),
            stop := env.expired run.world } := by
  obtain ⟨node, hnode⟩ := Option.isSome_iff_exists.1 hknown
  unfold turn at h
  rw [hnode] at h
  cases hexec : executeNode env node p.run with
  | ok out =>
    simp only [hexec, Outcome.ok_bind] at h
    cases h
    exact ⟨node, out.1, out.2, hnode, hexec, rfl⟩
  | err m => simp [hexec] at h
  | panic m => simp [hexec] at h

namespace Run

variable {r : Run W}

theorem output_of_admitted (hadm : r.Admitted) :
    r.output = (loop (known r.launch.graph) (turn r.env) maxNodesPerRun
      (initialConfig r.launch r.world)).bind fun out =>
        .ok (finishRun r.svc r.launch r.runID r.world out.1 out.2) := by
  unfold output executeGraph
  rw [hadm.1, if_neg Bool.false_ne_true, hadm.2]
  rfl

/-- What an admitted run reports is what its loop ended with. -/
theorem loop_of_output {o : RunOutput W} (hadm : r.Admitted) (ho : r.output = .ok o) :
    ∃ c stopped, loop (known r.launch.graph) (turn r.env) maxNodesPerRun
        (initialConfig r.launch r.world) = .ok (c, stopped) ∧
      o = finishRun r.svc r.launch r.runID r.world c stopped := by
  rw [output_of_admitted hadm] at ho
  cases hloop : loop (known r.launch.graph) (turn r.env) maxNodesPerRun
      (initialConfig r.launch r.world) with
  | err m => simp [hloop, Outcome.bind] at ho
  | panic m => simp [hloop, Outcome.bind] at ho
  | ok out =>
    rw [hloop] at ho
    cases ho
    exact ⟨out.1, out.2, rfl, rfl⟩

/-- A run that does not get to its queue is skipped or refused. -/
theorem output_of_not_admitted (hadm : ¬ r.Admitted) :
    ∃ status error recorded, r.output =
        .ok ⟨emptyRecord r.svc r.launch r.runID status error r.world, false, recorded, r.world⟩ ∧
      (status = "skipped" ∨ status = "failed" ∧
        refusal r.svc r.registry r.launch.graph r.world = some (error, recorded)) := by
  unfold output executeGraph
  cases hrun : r.running with
  | true => exact ⟨"skipped", "", false, by rw [if_pos rfl], .inl rfl⟩
  | false =>
    rw [if_neg Bool.false_ne_true]
    cases href : refusal r.svc r.registry r.launch.graph r.world with
    | none => exact absurd ⟨hrun, href⟩ hadm
    | some e => exact ⟨"failed", e.1, e.2, rfl, .inr ⟨rfl, rfl⟩⟩

/-- A run that does not get to its queue executes nothing. -/
theorem nodes_of_not_admitted {o : RunOutput W} (hadm : ¬ r.Admitted) (ho : r.output = .ok o) :
    o.record.nodes = [] := by
  obtain ⟨status, error, recorded, hout, -⟩ := output_of_not_admitted hadm
  rw [hout] at ho
  cases ho
  rfl

end Run

end Konnekt.Scheduler
