import Konnekt.Correctness.NodeCap
import Konnekt.Editor.ControlCycles
import Mathlib.Tactic.IntervalCases

/-!
# The cycle check of the editor and the cap of the engine

Without a control cycle every execution of a run stands for its own walk from the
entry node. The cap counts walks and not nodes, so a graph without cycles can still
be cut off; it is not when the walks that can be fired together stay below the cap.
-/

namespace Konnekt.Scheduler

open Go Worklist Editor

/-! ## What a node can set off -/

/-- The nodes each port of a node leads to. -/
def firings (g : Graph) (id : String) : List (List String) :=
  (g.edges.filter fun e => e.kind = "control" ∧ e.source = id).map fun e =>
    ((followEdges g id e.sourcePort).filter (known g)).map Work.nodeID

/-- The most executions one execution of a node can lead to, itself included, when no walk
is longer than the graph: at each node the port that leads to the most is fired. -/
def mostExecutions (g : Graph) (id : String) : Nat :=
  Acyclic.weight (firings g) g.nodes.length id

section

variable {g : Graph}

private theorem mem_ids_of_known {item : Work} (h : known g item = true) :
    item.nodeID ∈ g.nodes.map Node.id := by
  obtain ⟨node, hnode⟩ := Option.isSome_iff_exists.1 h
  have hmem := List.mem_of_find?_eq_some (Graph.nodeByID.eq_1 g item.nodeID ▸ hnode)
  rw [← Graph.id_of_nodeByID hnode]
  exact List.mem_map_of_mem (List.mem_reverse.1 hmem)

private theorem leads_firings {a b : String} (h : Acyclic.Leads (firings g) a b) :
    b ∈ g.nodes.map Node.id ∧ ∃ e ∈ g.edges, e.kind = "control" ∧ e.source = a ∧ e.target = b := by
  obtain ⟨group, hgroup, hb⟩ := h
  obtain ⟨e, -, rfl⟩ := List.mem_map.1 hgroup
  obtain ⟨item, hitem, rfl⟩ := List.mem_map.1 hb
  obtain ⟨hfollow, hknown⟩ := List.mem_filter.1 hitem
  obtain ⟨e', he', rfl⟩ := List.mem_map.1 hfollow
  obtain ⟨hmem, hcond⟩ := List.mem_filter.1 he'
  obtain ⟨hkind, hsource, -⟩ := of_decide_eq_true hcond
  exact ⟨mem_ids_of_known hknown, e', hmem, hkind, hsource, rfl⟩

/-- A control edge of the graph is one on the canvas. -/
private theorem isControlEdge_flowEdge {e : Edge} (h : e.kind = "control") :
    isControlEdge (flowEdge e) = true := by
  have hkind : e.kind ≠ "data" := by rw [h]; decide
  have hhandle : isDataHandle ("ctrl:" ++ e.sourcePort) = false := by
    have hctrl : "ctrl:".toList = ['c', 't', 'r', 'l', ':'] := by decide
    have hdata : "data:".toList = ['d', 'a', 't', 'a', ':'] := by decide
    rw [isDataHandle, cutPrefix, String.toList_append, hctrl, hdata]
    rfl
  simp [isControlEdge, flowEdge, hkind, hhandle]

private theorem holds_leads (hcycles : (detectControlCycles (flowEdges g)).cycleEdges = ∅) :
    Acyclic.Holds (Acyclic.Leads (firings g)) := by
  refine (cycleEdges_eq_empty_iff.1 hcycles).mono fun a b hab => ?_
  obtain ⟨-, e, he, hkind, hsource, htarget⟩ := leads_firings hab
  refine adjacent_iff.2 ⟨flowEdge e, ?_, hsource, htarget⟩
  exact List.mem_filter.2 ⟨List.mem_map_of_mem he, isControlEdge_flowEdge hkind⟩

/-- An execution and what it asks for weigh no more than its node. -/
private theorem load_followEdges_le (hcycles : (detectControlCycles (flowEdges g)).cycleEdges = ∅)
    {item : Work} (hknown : known g item = true) (port : String) :
    1 + load (known g) (fun i => mostExecutions g i.nodeID) (followEdges g item.nodeID port) ≤
      mostExecutions g item.nodeID := by
  by_cases hport : ∃ e ∈ g.edges, e.kind = "control" ∧ e.source = item.nodeID ∧ e.sourcePort = port
  · obtain ⟨e, he, hkind, hsource, rfl⟩ := hport
    have hgroup : ((followEdges g item.nodeID e.sourcePort).filter (known g)).map Work.nodeID ∈
        firings g item.nodeID :=
      List.mem_map.2 ⟨e, List.mem_filter.2 ⟨he, decide_eq_true ⟨hkind, hsource⟩⟩, rfl⟩
    have hle := Acyclic.add_sum_le_weight hgroup g.nodes.length
    have hclosed : ∀ a ∈ g.nodes.map Node.id, ∀ b, Acyclic.Leads (firings g) a b →
        b ∈ g.nodes.map Node.id := fun a _ b hab => (leads_firings hab).1
    have hstable := Acyclic.weight_succ (holds_leads hcycles) hclosed (mem_ids_of_known hknown)
    rw [List.length_map] at hstable
    rw [hstable, List.map_map] at hle
    exact hle
  · have hnone : followEdges g item.nodeID port = [] := by
      refine List.map_eq_nil_iff.2 (List.filter_eq_nil_iff.2 fun e he hcond => hport ?_)
      exact ⟨e, he, of_decide_eq_true hcond⟩
    rw [hnone]
    exact Acyclic.weight_pos _ _

end

/-! ## No abort -/

section

variable {W : Type}

/-- The cap cuts nothing off: the run executes fewer nodes than the cap, and it reports the
message of the cap only if one of its blocks failed with that very message. -/
structure Run.Uncut (r : Run W) : Prop where
  short : ∀ o, r.output = .ok o → o.record.nodes.length < maxNodesPerRun
  message : r.ReportsAbort → ∃ o, r.output = .ok o ∧
    ∃ n ∈ o.record.nodes, n.status = "failed" ∧ n.error = abortedMessage

/-- Below the cap its message can only be a block's own. -/
private theorem exists_borrowed {c : Config (Progress W) Work} {stopped : Bool}
    (hacc : Accounted c.state) (hshort : c.count < maxNodesPerRun)
    (hfailed : (verdict c stopped).1 = true) (herror : (verdict c stopped).2.1 = abortedMessage) :
    ∃ n ∈ c.state.nodes, n.status = "failed" ∧ n.error = abortedMessage := by
  unfold verdict at hfailed herror
  cases stopped with
  | true =>
    have hother : "run exceeded maximum duration" ≠ abortedMessage := by decide
    exact absurd herror hother
  | false =>
    rw [if_neg Bool.false_ne_true, if_neg (Nat.not_le.2 hshort)] at hfailed herror
    dsimp only at hfailed herror
    rw [Accounted, hfailed, if_pos rfl, herror, earned] at hacc
    cases hfind : c.state.nodes.find? (·.status == "failed") with
    | none =>
      rw [hfind] at hacc
      exact absurd (congrArg Prod.fst hacc) (by decide)
    | some n =>
      rw [hfind] at hacc
      have hstatus := List.find?_some hfind
      exact ⟨n, List.mem_of_find?_eq_some hfind, beq_iff_eq.1 hstatus, congrArg Prod.snd hacc⟩

/-- A graph whose control edges have no cycle is not cut off if the executions that can be
set off from the entry node stay below the cap, whatever ports its blocks fire. -/
theorem uncut_of_noCycles (r : Run W)
    (hcycles : (detectControlCycles (flowEdges r.launch.graph)).cycleEdges = ∅)
    (hfew : mostExecutions r.launch.graph r.launch.entryNodeID < maxNodesPerRun) : r.Uncut := by
  by_cases hadm : r.Admitted
  · have hshort : ∀ {c stopped}, loop (known r.launch.graph) (turn r.env) maxNodesPerRun
        (initialConfig r.launch r.world) = .ok (c, stopped) → c.count < maxNodesPerRun := by
      intro c stopped hloop
      have hle := loop_load_le (fun i => mostExecutions r.launch.graph i.nodeID)
        (fun p item t hknown hturn => by
          obtain ⟨node, res, run, hnode, -, rfl⟩ := turn_spec hturn hknown
          rw [Graph.id_of_nodeByID hnode]
          exact load_followEdges_le hcycles hknown _) _ hloop
      have hentry : load (known r.launch.graph)
          (fun i => mostExecutions r.launch.graph i.nodeID)
          (initialConfig r.launch r.world).queue ≤
            mostExecutions r.launch.graph r.launch.entryNodeID := by
        cases hknown : known r.launch.graph ⟨r.launch.entryNodeID, "in"⟩ with
        | false => simp [load, initialConfig, hknown]
        | true => simp [load, initialConfig, hknown]
      have hzero : (initialConfig r.launch r.world).count = 0 := rfl
      omega
    refine ⟨fun o ho => ?_, fun hreport => ?_⟩
    · obtain ⟨c, stopped, hloop, rfl⟩ := Run.loop_of_output hadm ho
      exact (Run.loop_records hloop).1 ▸ hshort hloop
    · obtain ⟨o, ho, hstatus, herror⟩ := hreport
      refine ⟨o, ho, ?_⟩
      obtain ⟨c, stopped, hloop, rfl⟩ := Run.loop_of_output hadm ho
      have hacc := (Run.loop_records hloop).2
      have hfailed : (verdict c stopped).1 = true := by
        by_contra hok
        simp [finishRun, hok] at hstatus
      refine exists_borrowed (Run.loop_records hloop).2 (hshort hloop) hfailed ?_
      simpa only [finishRun, hfailed, if_true] using herror
  · refine ⟨fun o ho => ?_, fun hreport => absurd hreport (Run.not_reportsAbort hadm)⟩
    rw [Run.nodes_of_not_admitted hadm ho]
    decide

end

/-! ## Paths that part and join -/

def joinID (i : Nat) : String := "j" ++ toString i
def leftID (i : Nat) : String := "l" ++ toString i
def rightID (i : Nat) : String := "r" ++ toString i

/-- An interval trigger and, `k` times in a row, two notifications side by side that lead to
one and the same next notification. -/
def diamondGraph (k : Nat) : Graph where
  id := "g"
  name := "diamonds"
  serverID := "s1"
  enabled := true
  nodes := ⟨joinID 0, "trigger.interval", ∅⟩ :: (List.range k).flatMap fun i =>
    [⟨leftID i, "action.notify", ∅⟩, ⟨rightID i, "action.notify", ∅⟩,
      ⟨joinID (i + 1), "action.notify", ∅⟩]
  edges := (List.range k).flatMap fun i =>
    [(joinID i, leftID i), (joinID i, rightID i), (leftID i, joinID (i + 1)),
      (rightID i, joinID (i + 1))].map fun ends =>
      ⟨ends.1 ++ ends.2, "control", ends.1, "onComplete", ends.2, "trigger"⟩
  createdAt := 0
  updatedAt := 0

/-- A run of it, in a world where no time passes. -/
def diamondRun (k : Nat) : Run Unit where
  svc := idleHost.toServices
  registry := builtinRegistry idleHost
  running := false
  runID := "r"
  launch := ⟨diamondGraph k, joinID 0, "time:interval",
    GoMap.ofList [(joinID 0, ∅), ("trigger", ∅)]⟩
  world := ()

/-- The order of the nodes is one of the walks. -/
private theorem noCycles_diamond {k : Nat}
    (h : ∀ e ∈ controlEdges (flowEdges (diamondGraph k)),
      (diamondGraph k).nodes.findIdx (·.id == e.source) <
        (diamondGraph k).nodes.findIdx (·.id == e.target)) :
    (detectControlCycles (flowEdges (diamondGraph k))).cycleEdges = ∅ := by
  refine cycleEdges_eq_empty_iff.2 (Acyclic.holds_of_rank
    (fun id => (diamondGraph k).nodes.findIdx (·.id == id)) fun a b hab => ?_)
  obtain ⟨e, he, rfl, rfl⟩ := adjacent_iff.1 hab
  exact h e he

private theorem nodes_diamond (i : Nat) (hi : i < 7) :
    (diamondGraph 7).nodeByID (leftID i) = some ⟨leftID i, "action.notify", ∅⟩ ∧
      (diamondGraph 7).nodeByID (rightID i) = some ⟨rightID i, "action.notify", ∅⟩ ∧
      (diamondGraph 7).nodeByID (joinID (i + 1)) = some ⟨joinID (i + 1), "action.notify", ∅⟩ := by
  interval_cases i <;> exact ⟨rfl, rfl, rfl⟩

private theorem followEdges_diamond : ∀ i < 7,
    followEdges (diamondGraph 7) (joinID i) "onComplete" =
        [⟨leftID i, "trigger"⟩, ⟨rightID i, "trigger"⟩] ∧
      followEdges (diamondGraph 7) (leftID i) "onComplete" = [⟨joinID (i + 1), "trigger"⟩] ∧
      followEdges (diamondGraph 7) (rightID i) "onComplete" = [⟨joinID (i + 1), "trigger"⟩] := by
  decide +kernel

private theorem not_data_diamond {k : Nat} : ∀ e ∈ (diamondGraph k).edges, e.kind = "control" := by
  intro e he
  obtain ⟨i, -, hlevel⟩ := List.mem_flatMap.1 he
  obtain ⟨ends, -, rfl⟩ := List.mem_map.1 hlevel
  rfl

private theorem expired_diamond (k : Nat) (w : Unit) : (diamondRun k).env.expired w = false :=
  expired_idle rfl rfl w

private theorem admitted_diamond (k : Nat) : (diamondRun k).Admitted := by
  have hnone : refusal idleHost.toServices (builtinRegistry idleHost) (diamondGraph k) () =
      none := by
    refine refusal_builtinRegistry (fun e he => ?_) fun n hn => ?_
    · rw [dataTypeIssue, if_neg (by rw [not_data_diamond e he]; decide)]
    · rcases List.mem_cons.1 hn with rfl | hn
      · show "trigger.interval" ≠ dhPublishBlockID
        decide
      · obtain ⟨i, -, hlevel⟩ := List.mem_flatMap.1 hn
        have htype : n.type = "action.notify" := by
          simp only [List.mem_cons, List.not_mem_nil, or_false] at hlevel
          rcases hlevel with rfl | rfl | rfl <;> rfl
        rw [htype]
        decide
  exact ⟨rfl, hnone⟩

/-- What the completion of an item's node leads to. -/
private def follow (item : Work) : List Work :=
  followEdges (diamondGraph 7) item.nodeID "onComplete"

/-- Every node of the graph asks for all it is wired to. -/
private def Asks (item : Work) : Prop :=
  known (diamondGraph 7) item = true ∧
    ∀ p, ∃ p', turn (diamondRun 7).env p item = .ok ⟨p', follow item, false⟩

private theorem asks_notify {item : Work} (hnode : (diamondGraph 7).nodeByID item.nodeID =
    some ⟨item.nodeID, "action.notify", ∅⟩) : Asks item := by
  have hdata : ∀ e ∈ (diamondRun 7).env.graph.edges, e.kind ≠ "data" := fun e he => by
    rw [not_data_diamond e he]
    decide
  refine ⟨?_, turn_notify_idle rfl (expired_diamond 7) hdata hnode item.arrivedOn⟩
  rw [known, hnode]
  rfl

private theorem asks_join {item : Work} {i : Nat} (hi : i ≤ 7) (hitem : item.nodeID = joinID i) :
    Asks item := by
  obtain ⟨id, port⟩ := item
  obtain rfl : id = joinID i := hitem
  cases i with
  | zero => exact ⟨rfl, turn_trigger_idle rfl (expired_diamond 7) rfl port⟩
  | succ i => exact asks_notify (nodes_diamond i hi).2.2

/-- A diamond doubles the work. -/
private theorem steps_level {i : Nat} (hi : i < 7) {item : Work} (hitem : item.nodeID = joinID i)
    (m n : Nat) (p : Progress Unit) : ∃ p',
      Steps (known (diamondGraph 7)) (turn (diamondRun 7).env) ⟨List.replicate m item, n, p⟩
        ⟨List.replicate (2 * m) ⟨joinID (i + 1), "trigger"⟩, n + 3 * m, p'⟩ := by
  obtain ⟨hjoin, hleft, hright⟩ := followEdges_diamond i hi
  rw [← hitem] at hjoin
  have hsides : (List.replicate m item).flatMap follow =
      (List.replicate m [⟨leftID i, "trigger"⟩, ⟨rightID i, "trigger"⟩]).flatten := by
    rw [List.flatMap_replicate, follow, hjoin]
  have hjoined : ((List.replicate m item).flatMap follow).flatMap follow =
      List.replicate (2 * m) ⟨joinID (i + 1), "trigger"⟩ := by
    have hboth : (follow item).flatMap follow =
        List.replicate 2 ⟨joinID (i + 1), "trigger"⟩ := by
      rw [follow, hjoin]
      simp only [List.flatMap_cons, List.flatMap_nil, follow, hleft, hright]
      rfl
    rw [List.flatMap_assoc, List.flatMap_replicate, hboth, List.flatten_replicate_replicate,
      Nat.mul_comm]
  obtain ⟨q, hparted⟩ := steps_flatMap follow (q := List.replicate m item) (fun other hother => by
    rw [List.eq_of_mem_replicate hother]
    exact asks_join (Nat.le_of_lt hi) hitem) [] n p
  obtain ⟨p', hmet⟩ := steps_flatMap follow (q := (List.replicate m item).flatMap follow)
    (fun other hother => by
      rw [hsides, List.mem_flatten] at hother
      obtain ⟨sides, hmem, hother⟩ := hother
      rw [List.eq_of_mem_replicate hmem] at hother
      simp only [List.mem_cons, List.not_mem_nil, or_false] at hother
      rcases hother with rfl | rfl
      · exact asks_notify (nodes_diamond i hi).1
      · exact asks_notify (nodes_diamond i hi).2.1) [] (n + m) q
  have hlen : ((List.replicate m item).flatMap follow).length = 2 * m := by
    rw [hsides]
    simp [Nat.mul_comm]
  rw [List.append_nil, List.nil_append, List.length_replicate] at hparted
  rw [List.append_nil, List.nil_append, hjoined, hlen] at hmet
  refine ⟨p', ?_⟩
  rw [show n + 3 * m = n + m + 2 * m by omega]
  exact hparted.trans hmet

/-- After `i` diamonds their join is queued `2 ^ i` times. -/
private theorem steps_diamonds {i : Nat} (hi : i ≤ 7) : ∃ item p, item.nodeID = joinID i ∧
    Steps (known (diamondGraph 7)) (turn (diamondRun 7).env)
      (initialConfig (diamondRun 7).launch ()) ⟨List.replicate (2 ^ i) item, 3 * (2 ^ i - 1), p⟩ := by
  induction i with
  | zero => exact ⟨⟨joinID 0, "in"⟩, _, rfl, .refl⟩
  | succ i ih =>
    obtain ⟨item, p, hitem, hsteps⟩ := ih (Nat.le_of_succ_le hi)
    obtain ⟨p', hlevel⟩ := steps_level hi hitem (2 ^ i) (3 * (2 ^ i - 1)) p
    refine ⟨⟨joinID (i + 1), "trigger"⟩, p', rfl, ?_⟩
    have hpos : 0 < 2 ^ i := Nat.two_pow_pos i
    rw [Nat.pow_succ', show 3 * (2 * 2 ^ i - 1) = 3 * (2 ^ i - 1) + 3 * 2 ^ i by omega]
    exact hsteps.trans hlevel

/-- The last join is still queued when the budget is used up. -/
private theorem performsMoreThan_diamond : (diamondRun 7).PerformsMoreThan maxNodesPerRun := by
  obtain ⟨item, p, hitem, hsteps⟩ := steps_diamonds (Nat.le_refl 7)
  have hasks := asks_join (Nat.le_refl 7) hitem
  obtain ⟨p', hlast⟩ := steps_flatMap follow (q := List.replicate 119 item) (fun other hother => by
    rw [List.eq_of_mem_replicate hother]
    exact hasks) (List.replicate 9 item) 381 p
  rw [← List.replicate_add] at hlast
  refine ⟨_, ⟨admitted_diamond 7, hsteps.trans hlast⟩, by simp [maxNodesPerRun], item, ?_, hasks.1⟩
  exact List.mem_append_left _ List.mem_cons_self

/-- A graph of 22 nodes without a control cycle is aborted with the message of the cap. -/
theorem not_covered_diamond :
    (diamondGraph 7).nodes.length ≤ maxNodesPerRun ∧
      (detectControlCycles (flowEdges (diamondGraph 7))).cycleEdges = ∅ ∧
      (diamondRun 7).ReportsAbort := by
  refine ⟨by decide, noCycles_diamond (by decide +kernel), ?_⟩
  obtain ⟨c, hloop, hcount, -⟩ :=
    (Run.performsMoreThan_iff (admitted_diamond 7) _).1 performsMoreThan_diamond
  exact (Run.reportsAbort_iff (admitted_diamond 7) (expired_diamond 7)).2 ⟨c, hloop, .inl hcount⟩

/-- A graph with two diamonds is not cut off. -/
theorem uncut_of_noCycles_diamond : (diamondRun 2).Uncut :=
  uncut_of_noCycles (diamondRun 2) (noCycles_diamond (by decide +kernel)) (by decide +kernel)

end Konnekt.Scheduler
