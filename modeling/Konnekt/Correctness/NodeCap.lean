import Konnekt.Correctness.Runs
import Konnekt.Scheduler.Blocks

/-!
# The cap on node executions

The loop guard stops a run before its 501st execution, and the check behind the
loop reports an abort whenever 500 executions were made. The two agree except on
a queue that drains after exactly 500 executions, where nothing was cut off.
-/

namespace Konnekt.Scheduler

open Go Worklist

section

variable {W : Type}

/-! ## The status a run's nodes earn -/

/-- Status and error of a run by its node records: the first failure decides. -/
def earned (nodes : List NodeRunRecord) : String × String :=
  match nodes.find? (·.status == "failed") with
  | some n => ("failed", n.error)
  | none => ("success", "")

/-- The loop's account of failures matches its node records. -/
def Accounted (p : Progress W) : Prop :=
  earned p.nodes = if p.failed then ("failed", p.firstErr) else ("success", "")

private theorem earned_append (nodes : List NodeRunRecord) (n : NodeRunRecord) :
    earned (nodes ++ [n]) =
      if earned nodes = ("success", "") then earned [n] else earned nodes := by
  unfold earned
  rw [List.find?_append]
  cases nodes.find? (·.status == "failed") with
  | none => simp
  | some m => simp

/-- Adding an executed node keeps the account. -/
theorem Accounted.add {p : Progress W} (h : Accounted p) (svc : Services W) (node : Node)
    (r : ExecResult) (run : RunState W) : Accounted (p.add svc node r run) := by
  obtain ⟨port, err, downtimeMs, warning, narrated⟩ := r
  unfold Accounted at h ⊢
  simp only [Progress.add]
  rw [earned_append, h]
  by_cases hf : p.failed = true
  · simp [hf]
  · rw [if_neg hf, if_pos rfl]
    cases err with
    | none => simp [hf, earned, nodeRunRecord]
    | some m => simp [hf, earned, nodeRunRecord]

namespace Run

variable (r : Run W)

/-- Without a cap the run would perform more than `k` node executions. -/
def PerformsMoreThan (k : Nat) : Prop :=
  ∃ c, r.Reaches c ∧ c.count = k ∧ ∃ item ∈ c.queue, known r.launch.graph item = true

/-- Without a cap the queue drains after exactly `k` node executions. -/
def DrainsAfter (k : Nat) : Prop := ∃ c, r.Reaches c ∧ c.count = k ∧ c.queue = []

/-- The run ends with the message of the cap. -/
def ReportsAbort : Prop :=
  ∃ o, r.output = .ok o ∧ o.record.status = "failed" ∧ o.record.error = abortedMessage

/-- The cap fails a run only when it cut something off. -/
structure CapIsExact : Prop where
  abort_iff : r.ReportsAbort ↔ r.PerformsMoreThan maxNodesPerRun
  drained : r.DrainsAfter maxNodesPerRun →
    ∃ o, r.output = .ok o ∧ (o.record.status, o.record.error) = earned o.record.nodes
  capped : r.ReportsAbort → ∀ o, r.output = .ok o → o.record.nodes.length = maxNodesPerRun

/-- The queue drains below the cap and the first block to fail used the message of the cap
as its own. -/
def BorrowsMessage : Prop :=
  ∃ c, r.Reaches c ∧ c.count < maxNodesPerRun ∧ c.queue = [] ∧
    earned c.state.nodes = ("failed", abortedMessage)

/-! ## What the loop leaves -/

variable {r}

/-- Every execution adds one node record and keeps the account of failures. -/
theorem loop_records {n : Nat} {c : Config (Progress W) Work} {stopped : Bool}
    (h : loop (known r.launch.graph) (turn r.env) n (initialConfig r.launch r.world) =
      .ok (c, stopped)) : c.state.nodes.length = c.count ∧ Accounted c.state := by
  refine loop_induction (P := fun n p => p.nodes.length = n ∧ Accounted p) ?_ n h ⟨rfl, rfl⟩
  intro n p item t hp hknown hturn
  obtain ⟨node, res, run, -, -, rfl⟩ := turn_spec hturn hknown
  exact ⟨by simp [Progress.add, hp.1], hp.2.add _ _ _ _⟩

private theorem refusal_ne_aborted {svc : Services W} {reg : BlockRegistry W} {g : Graph}
    {w : W} {error : String} {recorded : Bool}
    (h : refusal svc reg g w = some (error, recorded)) : error ≠ abortedMessage := by
  have hhead : ∀ pre rest : String, pre.toList.head?.or (some 'a') ≠ some 'a' →
      pre ++ rest ≠ abortedMessage := by
    intro pre rest hpre heq
    apply hpre
    have hfirst := congrArg (fun s => s.toList.head?) heq
    have habort : abortedMessage.toList.head? = some 'a' := by decide
    simp only [String.toList_append, List.head?_append, habort] at hfirst
    cases hp : pre.toList.head? with
    | none => rfl
    | some c => simpa [hp] using hfirst
  unfold refusal at h
  dsimp only at h
  split at h
  · cases h
    exact hhead _ _ (by decide)
  · split at h
    · cases h
      exact hhead _ _ (by decide)
    · split at h
      · cases h
        exact hhead _ _ (by decide)
      · cases h

/-- A run that does not get to its queue never reports an abort. -/
theorem not_reportsAbort (hadm : ¬ r.Admitted) : ¬ r.ReportsAbort := by
  rintro ⟨o, ho, hstatus, herror⟩
  obtain ⟨status, error, recorded, hout, hskip | ⟨-, href⟩⟩ := output_of_not_admitted hadm
  · rw [hout] at ho
    cases ho
    exact absurd (hskip.symm.trans hstatus) (by decide)
  · rw [hout] at ho
    cases ho
    exact refusal_ne_aborted href herror

private theorem turn_stop {env : RunEnv W} (htime : ∀ w, env.expired w = false)
    (p : Progress W) (item : Work) (t : Turn (Progress W) Work)
    (h : turn env p item = .ok t) : t.stop = false := by
  cases hknown : known env.graph item with
  | true =>
    obtain ⟨node, res, run, -, -, rfl⟩ := turn_spec h hknown
    exact htime _
  | false =>
    unfold turn at h
    rw [known, Option.isSome_eq_false_iff, Option.isNone_iff_eq_none] at hknown
    rw [hknown] at h
    cases h
    rfl

/-- What an admitted run that never runs out of time reports, by the end of its loop. -/
theorem reportsAbort_iff (hadm : r.Admitted) (htime : ∀ w, r.env.expired w = false) :
    r.ReportsAbort ↔
      ∃ c, loop (known r.launch.graph) (turn r.env) maxNodesPerRun
          (initialConfig r.launch r.world) = .ok (c, false) ∧
        (c.count = maxNodesPerRun ∨ c.count < maxNodesPerRun ∧ c.queue = [] ∧
          earned c.state.nodes = ("failed", abortedMessage)) := by
  unfold ReportsAbort
  constructor
  · rintro ⟨o, ho, hstatus, herror⟩
    obtain ⟨c, stopped, hloop, rfl⟩ := loop_of_output hadm ho
    obtain rfl := loop_not_stopped (turn_stop htime) _ hloop
    refine ⟨c, hloop, ?_⟩
    have hcount := loop_count _ hloop
    simp only [initialConfig, Nat.zero_add] at hcount
    obtain hfull | ⟨hshort, hnil⟩ := hcount
    · exact .inl hfull
    · refine .inr ⟨hshort, hnil, ?_⟩
      have hacc := (loop_records hloop).2
      simp only [finishRun, verdict, if_neg (Nat.not_le.2 hshort)] at hstatus herror
      cases hf : c.state.failed with
      | false => simp [hf] at hstatus
      | true =>
        rw [Accounted, if_pos hf] at hacc
        simp [hf] at herror
        rw [hacc, herror]
  · rintro ⟨c, hloop, hend⟩
    refine ⟨_, by rw [output_of_admitted hadm, hloop]; rfl, ?_⟩
    simp only [finishRun, verdict]
    obtain hfull | ⟨hshort, hnil, hearned⟩ := hend
    · simp [hfull]
    · have hacc := (loop_records hloop).2
      simp only [if_neg (Nat.not_le.2 hshort)]
      cases hf : c.state.failed with
      | false =>
        rw [Accounted, if_neg (by simp [hf]), hearned] at hacc
        exact absurd (congrArg Prod.fst hacc) (by decide)
      | true =>
        rw [Accounted, if_pos hf, hearned] at hacc
        have herr : abortedMessage = c.state.firstErr := congrArg Prod.snd hacc
        simp [← herr]

theorem performsMoreThan_iff (hadm : r.Admitted) (k : Nat) :
    r.PerformsMoreThan k ↔
      ∃ c, loop (known r.launch.graph) (turn r.env) k (initialConfig r.launch r.world) =
          .ok (c, false) ∧ c.count = k ∧
        ∃ item ∈ c.queue, known r.launch.graph item = true := by
  have h := @exceeds_iff _ _ (known r.launch.graph) (turn r.env) k
    (initialConfig r.launch r.world)
  rw [show (initialConfig r.launch r.world).count = 0 from rfl, Nat.zero_add] at h
  rw [← h]
  constructor
  · rintro ⟨c, hreach, hrest⟩
    exact ⟨c, hreach.2, hrest⟩
  · rintro ⟨c, hsteps, hrest⟩
    exact ⟨c, ⟨hadm, hsteps⟩, hrest⟩

private theorem drainsAfter_iff (hadm : r.Admitted) (k : Nat) :
    r.DrainsAfter k ↔
      ∃ c, loop (known r.launch.graph) (turn r.env) k (initialConfig r.launch r.world) =
          .ok (c, false) ∧ c.count = k ∧
        ∀ item ∈ c.queue, known r.launch.graph item = false := by
  have h := @drainsAt_iff _ _ (known r.launch.graph) (turn r.env) k
    (initialConfig r.launch r.world)
  rw [show (initialConfig r.launch r.world).count = 0 from rfl, Nat.zero_add] at h
  rw [← h]
  constructor
  · rintro ⟨c, hreach, hrest⟩
    exact ⟨c, hreach.2, hrest⟩
  · rintro ⟨c, hsteps, hrest⟩
    exact ⟨c, ⟨hadm, hsteps⟩, hrest⟩

private theorem borrowsMessage_iff (hadm : r.Admitted) :
    r.BorrowsMessage ↔
      ∃ c, loop (known r.launch.graph) (turn r.env) maxNodesPerRun
          (initialConfig r.launch r.world) = .ok (c, false) ∧
        c.count < maxNodesPerRun ∧ c.queue = [] ∧
        earned c.state.nodes = ("failed", abortedMessage) := by
  constructor
  · rintro ⟨c, hreach, hshort, hnil, hearned⟩
    refine ⟨c, loop_of_drained _ hreach.2 hnil ?_, hshort, hnil, hearned⟩
    rwa [show (initialConfig r.launch r.world).count = 0 from rfl, Nat.zero_add]
  · rintro ⟨c, hloop, hrest⟩
    exact ⟨c, ⟨hadm, steps_of_loop _ hloop⟩, hrest⟩

/-- Draining with the budget just used up is reported as an abort, though nothing was left
to do. -/
private theorem not_capIsExact (htime : ∀ w, r.env.expired w = false)
    (hdrain : r.DrainsAfter maxNodesPerRun) : ¬ r.CapIsExact := by
  intro h
  have hadm : r.Admitted := hdrain.choose_spec.1.1
  obtain ⟨c, hloop, hcount, hnone⟩ := (drainsAfter_iff hadm _).1 hdrain
  have habort := (reportsAbort_iff hadm htime).2 ⟨c, hloop, .inl hcount⟩
  obtain ⟨c', hloop', -, item, hmem, hknown⟩ :=
    (performsMoreThan_iff hadm _).1 (h.abort_iff.1 habort)
  rw [hloop] at hloop'
  cases hloop'
  rw [hnone item hmem] at hknown
  cases hknown

end Run

/-- In a run that never runs out of time, the cap is exact unless the queue drains after
exactly as many executions as the cap allows, or a block of a shorter run fails with the
very message of the cap. -/
theorem capIsExact_iff (r : Run W) (htime : ∀ w, r.env.expired w = false) :
    r.CapIsExact ↔ ¬ r.DrainsAfter maxNodesPerRun ∧ ¬ r.BorrowsMessage := by
  by_cases hadm : r.Admitted
  · constructor
    · intro h
      refine ⟨fun hdrain => Run.not_capIsExact htime hdrain h, fun hborrow => ?_⟩
      · obtain ⟨c, hloop, hshort, hrest⟩ := (Run.borrowsMessage_iff hadm).1 hborrow
        have habort := (Run.reportsAbort_iff hadm htime).2 ⟨c, hloop, .inr ⟨hshort, hrest⟩⟩
        obtain ⟨c', hloop', hcount, -⟩ :=
          (Run.performsMoreThan_iff hadm _).1 (h.abort_iff.1 habort)
        rw [hloop] at hloop'
        cases hloop'
        omega
    · rintro ⟨hdrain, hborrow⟩
      -- an abort is reported only for a full budget with a known node still queued
      have habort : ∀ c, loop (known r.launch.graph) (turn r.env) maxNodesPerRun
          (initialConfig r.launch r.world) = .ok (c, false) →
          (c.count = maxNodesPerRun ∨ c.count < maxNodesPerRun ∧ c.queue = [] ∧
            earned c.state.nodes = ("failed", abortedMessage)) → c.count = maxNodesPerRun := by
        rintro c hloop (hfull | hshort)
        · exact hfull
        · exact absurd ((Run.borrowsMessage_iff hadm).2 ⟨c, hloop, hshort⟩) hborrow
      refine ⟨?_, fun h => absurd h hdrain, ?_⟩
      · rw [Run.reportsAbort_iff hadm htime, Run.performsMoreThan_iff hadm]
        constructor
        · rintro ⟨c, hloop, hend⟩
          refine ⟨c, hloop, habort c hloop hend, ?_⟩
          by_contra hnone
          refine hdrain ((Run.drainsAfter_iff hadm _).2
            ⟨c, hloop, habort c hloop hend, fun item hmem => ?_⟩)
          by_contra hknown
          exact hnone ⟨item, hmem, Bool.not_eq_false _ ▸ hknown⟩
        · rintro ⟨c, hloop, hcount, -⟩
          exact ⟨c, hloop, .inl hcount⟩
      · intro hreport o ho
        obtain ⟨c, hloop, hend⟩ := (Run.reportsAbort_iff hadm htime).1 hreport
        rw [Run.output_of_admitted hadm, hloop] at ho
        cases ho
        exact (Run.loop_records hloop).1.trans (habort c hloop hend)
  · have hreport := Run.not_reportsAbort hadm
    have hreach : ∀ c, ¬ r.Reaches c := fun c hc => hadm hc.1
    refine iff_of_true ⟨?_, ?_, ?_⟩ ⟨?_, ?_⟩
    · exact iff_of_false hreport fun ⟨c, hc, _⟩ => hreach c hc
    · exact fun ⟨c, hc, _⟩ => absurd hc (hreach c)
    · exact fun h => absurd h hreport
    · exact fun ⟨c, hc, _⟩ => hreach c hc
    · exact fun ⟨c, hc, _⟩ => hreach c hc

end

/-! ## Triggers and notifications in an idle world -/

section

variable {env : RunEnv Unit}

/-- No time passes in the idle world. -/
theorem expired_idle (hsvc : env.svc = idleHost.toServices) (hstart : env.startedAt = 0)
    (w : Unit) : env.expired w = false := by
  have hpos : (0 : Int) < runDuration env.registry env.graph :=
    lt_of_lt_of_le (by decide) (le_max_left _ _)
  refine decide_eq_false ?_
  rw [hsvc, hstart]
  show ¬ (0 : Int) + runDuration env.registry env.graph ≤ 0
  omega

private theorem lookup_interval : ∃ exec, (builtinRegistry idleHost).lookup "trigger.interval" =
    some ⟨triggerDef "trigger.interval" "Interval" ["onComplete"]
      [⟨"intervalMinutes", "Interval", "number"⟩] [] [⟨"intervalMinutes", "number", true⟩],
      exec⟩ := by
  rw [lookup_builtinRegistry]
  exact ⟨_, rfl⟩

private theorem lookup_notify : (builtinRegistry idleHost).lookup "action.notify" =
    some ⟨actionDef "action.notify" "Notify" ["onComplete"] [⟨"message", "Message", "string"⟩] []
      [⟨"kind", "select", false⟩, ⟨"message", "string", true⟩, ⟨"deliver", "select", false⟩],
      execNotify idleHost⟩ := by
  rw [lookup_builtinRegistry]
  rfl

/-- A trigger asks for what its completion leads to. -/
theorem turn_trigger_idle (hreg : env.registry = builtinRegistry idleHost)
    (htime : ∀ w, env.expired w = false) {id : String}
    (hnode : env.graph.nodeByID id = some ⟨id, "trigger.interval", ∅⟩) (port : String)
    (p : Progress Unit) : ∃ p',
      turn env p ⟨id, port⟩ = .ok ⟨p', followEdges env.graph id "onComplete", false⟩ := by
  obtain ⟨exec, hinterval⟩ := lookup_interval
  have hexec : executeNode env ⟨id, "trigger.interval", ∅⟩ p.run =
      .ok (.done "onComplete", p.run) := by
    rw [executeNode, hreg, hinterval]
    rfl
  refine ⟨p.add env.svc ⟨id, "trigger.interval", ∅⟩ (.done "onComplete") p.run, ?_⟩
  unfold turn
  simp only [hnode, hexec, Outcome.ok_bind, htime]
  rfl

/-- Where no value is wired, a notification asks for what its completion leads to. -/
theorem turn_notify_idle (hreg : env.registry = builtinRegistry idleHost)
    (htime : ∀ w, env.expired w = false) (hdata : ∀ e ∈ env.graph.edges, e.kind ≠ "data")
    {id : String} (hnode : env.graph.nodeByID id = some ⟨id, "action.notify", ∅⟩) (port : String)
    (p : Progress Unit) : ∃ p',
      turn env p ⟨id, port⟩ = .ok ⟨p', followEdges env.graph id "onComplete", false⟩ := by
  have hpull : ∀ st, pullDataDependencies env id st = .ok st := fun st =>
    pullEdges_of_not_wired (fun e he hwired => hdata e he hwired.1) st
  have hexec : ∃ r run, executeNode env ⟨id, "action.notify", ∅⟩ p.run = .ok (r, run) ∧
      firedPort r = "onComplete" := by
    rw [executeNode, hreg, lookup_notify]
    dsimp only
    rw [if_neg (by decide), hpull]
    exact ⟨_, _, rfl, rfl⟩
  obtain ⟨r, run, hrun, hport⟩ := hexec
  refine ⟨p.add env.svc ⟨id, "action.notify", ∅⟩ r run, ?_⟩
  unfold turn
  simp only [hnode, hrun, Outcome.ok_bind, htime, ← hport]
  rfl

end

/-! ## A run that uses exactly the budget -/

/-- An interval trigger with `k` control edges to one notification. -/
def fanGraph (k : Nat) : Graph where
  id := "g"
  name := "fan"
  serverID := "s1"
  enabled := true
  nodes := [⟨"t", "trigger.interval", ∅⟩, ⟨"n", "action.notify", ∅⟩]
  edges := (List.range k).map fun i => ⟨toString i, "control", "t", "onComplete", "n", "trigger"⟩
  createdAt := 0
  updatedAt := 0

/-- A run of it, in a world where no time passes. -/
def fanRun (k : Nat) : Run Unit where
  svc := idleHost.toServices
  registry := builtinRegistry idleHost
  running := false
  runID := "r"
  launch := ⟨fanGraph k, "t", "time:interval", GoMap.ofList [("t", ∅), ("trigger", ∅)]⟩
  world := ()

private theorem not_data_fanGraph {k : Nat} {e : Edge} (h : e ∈ (fanGraph k).edges) :
    e.kind = "control" ∧ e.source = "t" := by
  obtain ⟨i, -, rfl⟩ := List.mem_map.1 h
  exact ⟨rfl, rfl⟩

private theorem expired_fanRun (k : Nat) (w : Unit) : (fanRun k).env.expired w = false :=
  expired_idle rfl rfl w

private theorem admitted_fanRun (k : Nat) : (fanRun k).Admitted := by
  have hnone : refusal idleHost.toServices (builtinRegistry idleHost) (fanGraph k) () = none := by
    refine refusal_builtinRegistry (fun e he => ?_) ?_
    · rw [dataTypeIssue, if_neg (by rw [(not_data_fanGraph he).1]; decide)]
    · show ∀ n ∈ ([⟨"t", "trigger.interval", ∅⟩, ⟨"n", "action.notify", ∅⟩] : List Node),
        n.type ≠ dhPublishBlockID
      decide
  exact ⟨rfl, hnone⟩

/-- The trigger asks for the notification once for every edge. -/
private theorem turn_trigger (k : Nat) (p : Progress Unit) : ∃ p',
    turn (fanRun k).env p ⟨"t", "in"⟩ = .ok ⟨p', List.replicate k ⟨"n", "trigger"⟩, false⟩ := by
  have hedges : followEdges (fanGraph k) "t" "onComplete" =
      List.replicate k ⟨"n", "trigger"⟩ := by
    simp only [followEdges, fanGraph, List.filter_map, List.map_map, Function.comp_def]
    simp
  rw [← hedges]
  exact turn_trigger_idle rfl (expired_fanRun k) rfl "in" p

/-- The notification asks for nothing. -/
private theorem turn_notify (k : Nat) (p : Progress Unit) : ∃ p',
    turn (fanRun k).env p ⟨"n", "trigger"⟩ = .ok ⟨p', [], false⟩ := by
  have hedges : followEdges (fanGraph k) "n" "onComplete" = [] := by
    refine List.map_eq_nil_iff.2 (List.filter_eq_nil_iff.2 fun e he => ?_)
    simp [(not_data_fanGraph he).2]
  have hdata : ∀ e ∈ (fanGraph k).edges, e.kind ≠ "data" := fun e he => by
    rw [(not_data_fanGraph he).1]
    decide
  rw [← hedges]
  exact turn_notify_idle rfl (expired_fanRun k) hdata rfl "trigger" p

private theorem steps_notify (k m n : Nat) (p : Progress Unit) : ∃ p',
    Steps (known (fanGraph k)) (turn (fanRun k).env)
      ⟨List.replicate m ⟨"n", "trigger"⟩, n, p⟩ ⟨[], n + m, p'⟩ := by
  have halike : ∀ item ∈ List.replicate m (⟨"n", "trigger"⟩ : Work),
      known (fanGraph k) item = true ∧
        ∀ p, ∃ p', turn (fanRun k).env p item = .ok ⟨p', [], false⟩ := by
    intro item hitem
    rw [List.eq_of_mem_replicate hitem]
    exact ⟨rfl, turn_notify k⟩
  obtain ⟨p', hsteps⟩ := steps_flatMap (fun _ => []) halike [] n p
  have hnil : (List.replicate m (⟨"n", "trigger"⟩ : Work)).flatMap (fun _ => ([] : List Work)) =
      [] := List.flatMap_eq_nil_iff.2 fun _ _ => rfl
  rw [hnil, List.append_nil, List.nil_append, List.length_replicate] at hsteps
  exact ⟨p', hsteps⟩

private theorem drainsAfter_fanRun (k : Nat) : (fanRun k).DrainsAfter (k + 1) := by
  obtain ⟨q, hturn⟩ := turn_trigger k (initialConfig (fanRun k).launch ()).state
  obtain ⟨p', hsteps⟩ := steps_notify k k 1 q
  refine ⟨⟨[], 1 + k, p'⟩, ⟨admitted_fanRun k, ?_⟩, Nat.add_comm 1 k, rfl⟩
  exact .head (.act rfl hturn rfl) hsteps

/-- A trigger with 499 edges to one notification executes 500 nodes and has nothing left to
do, and is reported as aborted. -/
theorem not_capIsExact_fan : ¬ (fanRun 499).CapIsExact :=
  Run.not_capIsExact (expired_fanRun 499) (drainsAfter_fanRun 499)

/-- The exactness condition at that run. -/
theorem capIsExact_iff_fan : (fanRun 499).CapIsExact ↔
    ¬ (fanRun 499).DrainsAfter maxNodesPerRun ∧ ¬ (fanRun 499).BorrowsMessage :=
  capIsExact_iff (fanRun 499) (expired_fanRun 499)

end Konnekt.Scheduler
