import Konnekt.Remote.TunnelRuns

/-!
# Hostnames of the tunnel

The sections of the tunnel's lock bring a hostname up and down in turn. The listener
is told after the lock is released, so what it answers to follows the tunnel when no
call of `OnHost` overtakes an earlier one that says the opposite of the same hostname.
-/

namespace Konnekt.Remote.Tunnel

open Threads Notices

variable {supported dataDir : Bool} {named : NamedTunnel} {c c' : Threads.Config Shared Thread}
  {trace : Trace Shared Thread} {s s' : Shared} {t t' : Thread} {new : List Thread}

/-- A call of `OnHost` switches its hostname on or off; that a hostname is forgotten takes no part
in its ups and downs. -/
def reading : Reading HostCall Hostname where
  key := HostCall.host
  on := HostCall.up
  counts call := !call.forgotten

/-- Every call has returned, and no run is about to tell of a hostname. -/
def Settled (c : Threads.Config Shared Thread) : Prop :=
  ∀ t ∈ c.threads, t = .done ∨ ∃ r phase, t = .run r phase ∧ t.pending = none

/-- The hostnames the listener is told of follow the tunnel. -/
structure HostsFollow (supported : Bool) (c : Threads.Config Shared Thread) : Prop where
  /-- Each hostname has come up and gone down in turn. -/
  alternates : ∀ h, Alternates (switches reading h c.shared.delivered)
  /-- A run whose generation has passed changes nothing and makes no call. -/
  stale : ∀ r phase c', Acts (program supported) c (.run r phase) c' →
    r.gen < c.shared.tunnel.gen →
      c'.shared.tunnel = c.shared.tunnel ∧ c'.shared.queue.Sublist c.shared.queue
  /-- Generations do not come back. -/
  gens : ∀ t c', Acts (program supported) c t c' → c.shared.tunnel.gen ≤ c'.shared.tunnel.gen
  /-- In the end the listener answers to the hostname of the tunnel that is up. -/
  hosts : Settled c → ∀ h : Hostname, h.name ∈ c.shared.hosts ↔
    c.shared.tunnel.state.status = .running ∧ c.shared.tunnel.state.url = "https://" ++ h.name

/-- No call of `OnHost` overtakes an earlier one that says the opposite of the same hostname. -/
def InOrder (c : Threads.Config Shared Thread) (t : Thread) : Prop :=
  ∀ call, t.pending = some call → InTurn reading (c.shared.queue.takeWhile (· ≠ call)) call

/-! ## What a step does -/

/-- A run that has not announced its hostname yet. -/
def Thread.early (gen : Nat) : Thread → Bool
  | .run r phase => r.gen == gen && match phase with
    | .preparing | .downloading | .launching | .reading _ false => true
    | .reading _ true | .announcing _ _ => false
  | _ => false

/-- The generation of a run. -/
def Thread.gen : Thread → Option Nat
  | .run r _ => some r.gen
  | _ => none

/-- What a section does to the service, the call it makes, and what becomes of its thread. -/
inductive Effect (t t' : Thread) (new : List Thread) :
    TunnelService → TunnelService → Option HostCall → Prop
  | same {sv : TunnelService} (hnew : new = []) : Effect t t' new sv sv none
  | set {sv : TunnelService} {f : TunnelState → TunnelState} (hnew : new = [])
      (hearly : t.early sv.gen = true)
      (hf : ∀ st, st.status ≠ .running → (f st).status ≠ .running) :
      Effect t t' new sv { sv with state := f sv.state } none
  | start {sv sv' : TunnelService} {r : RunInfo} (hactive : sv.active = false)
      (hgen : sv'.gen = sv.gen + 1) (hhost : sv'.host = none)
      (hstatus : sv'.state.status = .starting) (hr : r.gen = sv'.gen)
      (hnew : new = [.run r .preparing]) : Effect t t' new sv sv' none
  | bump {sv : TunnelService} (hnew : new = []) :
      Effect t t' new sv { sv with gen := sv.gen + 1 } none
  | down {sv sv' : TunnelService} (hnew : new = []) (hgen : sv'.gen = sv.gen)
      (hhost : sv'.host = none) (hstatus : sv'.state.status ≠ .running) :
      Effect t t' new sv sv' sv.down
  | up {sv : TunnelService} {host : Hostname} (hnew : new = []) (hearly : t.early sv.gen = true)
      (hlate : t'.early sv.gen = false) :
      Effect t t' new sv (sv.up sv.gen host).1 (sv.up sv.gen host).2
  | forget {sv sv' : TunnelService} {call : Option HostCall} (hnew : new = [])
      (hactive : sv.active = false) (hgen : sv'.gen = sv.gen) (hstate : sv'.state = sv.state)
      (hhost : sv'.host = sv.host)
      (hcall : ∀ k, call = some k → k.up = false ∧ k.forgotten = true) :
      Effect t t' new sv sv' call

/-- A step delivers a call, or is a section that makes one or none. -/
inductive StepCases (t : Thread) (s : Shared) (t' : Thread) (s' : Shared) (new : List Thread) :
    Prop
  | deliver {call : HostCall} (hpending : t.pending = some call) (hpending' : t'.pending = none)
      (hs : s' = s.deliver call) (hnew : new = [])
  | inSection {call : Option HostCall} (hpending : t.pending = none) (hpending' : t'.pending = call)
      (heffect : Effect t t' new s.tunnel s'.tunnel call)
      (hqueue : s'.queue = s.queue ++ call.toList) (hdelivered : s'.delivered = s.delivered)
      (hhosts : s'.hosts = s.hosts)

theorem pending_reporting (call : Option HostCall) : (Thread.reporting call).pending = call := by
  cases call <;> rfl

theorem effect_fail {gen : Nat} {msg : String} {sv : TunnelService} :
    Effect t t' [] sv (sv.fail gen msg).1 (sv.fail gen msg).2 := by
  unfold TunnelService.fail
  by_cases h : gen ≠ sv.gen
  · rw [if_pos h]
    exact .same rfl
  · rw [if_neg h]
    exact .down rfl rfl rfl Status.noConfusion

theorem effect_set {r : RunInfo} {phase : Phase} {sv : TunnelService}
    (f : TunnelState → TunnelState) (hphase : phase = .preparing ∨ phase = .downloading)
    (hf : ∀ st, st.status ≠ .running → (f st).status ≠ .running) :
    Effect (.run r phase) t' [] sv (sv.set r.gen f) none := by
  unfold TunnelService.set
  by_cases h : r.gen ≠ sv.gen
  · rw [if_pos h]
    exact .same rfl
  · rw [if_neg h]
    refine .set rfl ?_ hf
    have hgen : r.gen = sv.gen := not_not.1 h
    rcases hphase with rfl | rfl <;> simp [Thread.early, hgen]

theorem effect_start {addr : Option Addr} {sv sv' : TunnelService} {target : Addr}
    {plan : TunnelRun} (h : sv.start supported addr = .ok (sv', target, plan)) :
    Effect t t' [.run ⟨sv'.gen, plan⟩ .preparing] sv sv' none := by
  unfold TunnelService.start at h
  split at h
  · cases h
  · split at h
    · cases h
    · split at h
      · cases h
      · split at h
        · cases h
        · next hactive =>
          split at h
          · cases h
          · split at h
            · cases h
            · cases h
              exact .start (Bool.eq_false_iff.2 hactive) rfl rfl rfl rfl rfl

theorem effect_stopBegin {sv sv' : TunnelService} {run : Option Nat}
    (h : sv.stopBegin = some (sv', run)) : Effect t t' [] sv sv' none := by
  unfold TunnelService.stopBegin at h
  split at h
  · cases h
  · cases h
    exact .bump rfl

theorem forgotten_of_forgotten {sv : TunnelService} {k : HostCall}
    (h : sv.forgotten = some k) : k.up = false ∧ k.forgotten = true := by
  obtain ⟨host, -, rfl⟩ := Option.map_eq_some_iff.1 h
  exact ⟨rfl, rfl⟩

/-- `SaveNamed` and `ForgetNamed` change the configuration while no run is in flight. -/
structure Configures (sv : TunnelService) (result : TunnelService × Option HostCall) : Prop where
  active : sv.active = false
  tunnel : ∃ named, result.1 = { sv with named := named }
  call : result.2 = none ∨ result.2 = sv.forgotten

theorem configures_saveNamed {writes : Bool} {hostname token : String} {port : Nat}
    {sv : TunnelService} {result : TunnelService × Option HostCall}
    (h : sv.saveNamed writes hostname port token = .ok result) : Configures sv result := by
  unfold TunnelService.saveNamed at h
  split at h
  · cases h
  · split at h
    · cases h
    · split at h
      · cases h
      · split at h
        · cases h
        · split at h
          · cases h
          · next hactive =>
            split at h
            · cases h
            · split at h
              · cases h
              · cases h
                refine ⟨Bool.eq_false_iff.2 hactive, ⟨_, rfl⟩, ?_⟩
                split
                · exact .inl rfl
                · exact .inr rfl

theorem configures_forgetNamed {removes : Bool} {sv : TunnelService}
    {result : TunnelService × Option HostCall} (h : sv.forgetNamed removes = .ok result) :
    Configures sv result := by
  unfold TunnelService.forgetNamed at h
  split at h
  · cases h
  · next hactive =>
    split at h
    · cases h
    · split at h
      · cases h
      · cases h
        exact ⟨Bool.eq_false_iff.2 hactive, ⟨_, rfl⟩, .inr rfl⟩

theorem Configures.effect {sv : TunnelService} {result : TunnelService × Option HostCall}
    (h : Configures sv result) : Effect t t' [] sv result.1 result.2 := by
  obtain ⟨named, hnamed⟩ := h.tunnel
  rw [hnamed]
  refine .forget rfl h.active rfl rfl rfl fun k hk => ?_
  rcases h.call with hnone | hforgotten
  · rw [hnone] at hk
    cases hk
  · exact forgotten_of_forgotten (hforgotten.symm.trans hk)

/-- A run that announces its hostname is past it. -/
theorem effect_up {r : RunInfo} {host : Hostname} {timedOut : Bool} {sv : TunnelService} :
    Effect (.run r (.reading timedOut false))
      (.run r (match (sv.up r.gen host).2 with
        | some call => .announcing call timedOut
        | none => .reading timedOut true)) [] sv (sv.up r.gen host).1 (sv.up r.gen host).2 := by
  by_cases h : r.gen = sv.gen
  · rw [h]
    refine .up rfl ?_ ?_
    · simp only [Thread.early, h, beq_self_eq_true, Bool.and_self]
    · simp only [TunnelService.up, ne_eq, not_true_eq_false, if_false, Thread.early, Bool.and_false]
  · have hsame : sv.up r.gen host = (sv, none) := if_pos h
    rw [hsame]
    exact .same rfl

theorem pending_of_phase {r : RunInfo} {phase : Phase}
    (h : phase = .preparing ∨ phase = .downloading) : (Thread.run r phase).pending = none := by
  rcases h with rfl | rfl <;> rfl

theorem pending_ite {p : Prop} [Decidable p] {r : RunInfo} {phase : Phase}
    (h : (Thread.run r phase).pending = none) :
    (if p then Thread.run r phase else .done).pending = none := by
  split
  · exact h
  · rfl

theorem Step.cases (h : Step supported t s t' s' new) : StepCases t s t' s' new := by
  have hnone : ∀ l : List HostCall, l = l ++ (none : Option HostCall).toList := fun l =>
    (List.append_nil l).symm
  cases h with
  | start h => exact .inSection rfl rfl (effect_start h) (hnone _) rfl rfl
  | startRefused | stopNothing | saveRefused | forgetRefused | timeout =>
    exact .inSection rfl rfl (.same rfl) (hnone _) rfl rfl
  | stopBegin h => exact .inSection rfl rfl (effect_stopBegin h) (hnone _) rfl rfl
  | cancel => exact .inSection rfl rfl (.same rfl) (hnone _) rfl rfl
  | stopEnd =>
    exact .inSection rfl (pending_reporting _) (.down rfl rfl rfl Status.noConfusion) rfl rfl rfl
  | saveNamed h => exact .inSection rfl (pending_reporting _) (configures_saveNamed h).effect rfl rfl rfl
  | forgetNamed h => exact .inSection rfl (pending_reporting _) (configures_forgetNamed h).effect rfl rfl rfl
  | report => exact .deliver rfl rfl rfl rfl
  | announced => exact .deliver rfl rfl rfl rfl
  | downloading =>
    refine .inSection rfl rfl
      (effect_set (fun st => { st with status := .downloading, percent := 0 }) (.inl rfl) ?_) (hnone _) rfl rfl
    exact fun st _ => Status.noConfusion
  | percent pct =>
    refine .inSection rfl rfl (effect_set (fun st => { st with percent := pct }) (.inr rfl) ?_)
      (hnone _) rfl rfl
    exact fun st hst => hst
  | prepared hphase =>
    refine .inSection (pending_of_phase hphase) (pending_ite rfl)
      (effect_set (fun st => { st with status := .starting, percent := 0 }) hphase ?_) (hnone _)
      rfl rfl
    exact fun st _ => Status.noConfusion
  | stopped hphase _ =>
    refine .inSection ?_ rfl (.same rfl) (hnone _) rfl rfl
    rcases hphase with rfl | rfl | ⟨timedOut, connected, rfl⟩ <;> rfl
  | notPrepared hphase _ =>
    exact .inSection (pending_of_phase hphase) (pending_reporting _) effect_fail rfl rfl rfl
  | notLaunched => exact .inSection rfl (pending_reporting _) effect_fail rfl rfl rfl
  | launched => exact .inSection rfl (pending_ite rfl) (.same rfl) (hnone _) rfl rfl
  | line _ =>
    refine .inSection rfl ?_ effect_up rfl rfl rfl
    split
    · next call hcall => exact hcall.symm
    · next hcall => exact hcall.symm
  | exited _ => exact .inSection rfl (pending_reporting _) effect_fail rfl rfl rfl

theorem gen_reporting (call : Option HostCall) : (Thread.reporting call).gen = none := by
  cases call <;> rfl

theorem early_reporting (call : Option HostCall) (gen : Nat) :
    (Thread.reporting call).early gen = false := by
  cases call <;> rfl

/-- What is not a run has no generation to keep. -/
theorem thread_of_call (hgen : t'.gen = none) (hearly : ∀ g, t'.early g = false) :
    (∀ g, t'.gen = some g → t.gen = some g) ∧ ∀ g, t'.early g = true → t.early g = true := by
  constructor
  · intro g hg
    rw [hgen] at hg
    cases hg
  · intro g hg
    rw [hearly g] at hg
    cases hg

/-- A run goes on under its generation, and is not before its hostname again. -/
theorem Step.thread (h : Step supported t s t' s' new) :
    (∀ g, t'.gen = some g → t.gen = some g) ∧ ∀ g, t'.early g = true → t.early g = true := by
  cases h with
  | start | startRefused | stopNothing | stopBegin | cancel | saveRefused | forgetRefused | report
  | stopped => exact thread_of_call rfl fun _ => rfl
  | stopEnd | saveNamed | forgetNamed | notPrepared | notLaunched | exited =>
    exact thread_of_call (gen_reporting _) (early_reporting _)
  | downloading | percent | timeout => exact ⟨fun g hg => hg, fun g hg => hg⟩
  | announced =>
    refine ⟨fun g hg => hg, fun g hg => ?_⟩
    simp only [Thread.early, Bool.and_false, Bool.false_eq_true] at hg
  | prepared hphase =>
    split
    · refine ⟨fun g hg => hg, fun g hg => ?_⟩
      rcases hphase with rfl | rfl <;> exact hg
    · exact thread_of_call rfl fun _ => rfl
  | launched =>
    split
    · exact ⟨fun g hg => hg, fun g hg => hg⟩
    · exact thread_of_call rfl fun _ => rfl
  | line =>
    refine ⟨fun g hg => hg, fun g hg => ?_⟩
    split at hg <;> simp only [Thread.early, Bool.and_false, Bool.false_eq_true] at hg

/-! ## The calls in the order of their sections -/

/-- The calls as the sections made them, and what the listener answers to once they are
delivered, agree with the hostname that is up. -/
structure Made (host : Option Hostname) (hosts : Finset String) (delivered queue : List HostCall) :
    Prop where
  alternates : ∀ h, Alternates (switches reading h (delivered ++ queue))
  last : ∀ h, (switches reading h (delivered ++ queue)).getLast? = some true ↔ host = some h
  settles : ∀ h : Hostname,
    settle reading h (decide (h.name ∈ hosts)) queue = decide (host = some h)

namespace Made

variable {host : Option Hostname} {hosts : Finset String} {delivered queue : List HostCall}
  {k : HostCall}

theorem switches_concat (hcounts : k.forgotten = false) :
    switches reading k.host (delivered ++ (queue ++ [k])) =
      switches reading k.host (delivered ++ queue) ++ [k.up] := by
  have hin : reading.counts k = true := by
    change (!k.forgotten) = true
    rw [hcounts]
    rfl
  have hone : switches reading k.host [k] = [k.up] := switches_cons_of_counts rfl hin []
  rw [← List.append_assoc, switches_append (delivered ++ queue), hone]

theorem switches_concat_of_not {h : Hostname} (hnot : ¬ (k.host = h ∧ k.forgotten = false)) :
    switches reading h (delivered ++ (queue ++ [k])) =
      switches reading h (delivered ++ queue) := by
  have hnone : switches reading h [k] = [] := by
    refine switches_cons_of_not (fun hboth => hnot ⟨hboth.1, ?_⟩) []
    exact Bool.not_eq_true' _ ▸ hboth.2
  rw [← List.append_assoc, switches_append (delivered ++ queue), hnone, List.append_nil]

theorem settle_concat {h : Hostname} (now : Bool) :
    settle reading h now (queue ++ [k]) =
      if k.host = h then k.up else settle reading h now queue := by
  rw [settle_append]
  rfl

theorem up (hmade : Made none hosts delivered queue) (hup : k.up = true)
    (hcounts : k.forgotten = false) : Made (some k.host) hosts delivered (queue ++ [k]) := by
  refine ⟨fun h => ?_, fun h => ?_, fun h => ?_⟩
  · by_cases hk : k.host = h
    · subst hk
      rw [switches_concat hcounts]
      apply (hmade.alternates _).concat
      rw [hmade.last, hup]
      simp only [reduceCtorEq, Bool.true_eq_false]
    · rw [switches_concat_of_not fun hboth => hk hboth.1]
      exact hmade.alternates h
  · by_cases hk : k.host = h
    · subst hk
      rw [switches_concat hcounts, List.getLast?_concat, hup]
      simp only
    · rw [switches_concat_of_not fun hboth => hk hboth.1, hmade.last]
      simp only [reduceCtorEq, Option.some.injEq, hk]
  · rw [settle_concat, hmade.settles]
    by_cases hk : k.host = h
    · rw [if_pos hk, hup, hk]
      simp only [decide_true]
    · rw [if_neg hk]
      simp only [reduceCtorEq, Option.some.injEq, hk]

theorem down (hmade : Made (some k.host) hosts delivered queue) (hup : k.up = false)
    (hcounts : k.forgotten = false) : Made none hosts delivered (queue ++ [k]) := by
  refine ⟨fun h => ?_, fun h => ?_, fun h => ?_⟩
  · by_cases hk : k.host = h
    · subst hk
      rw [switches_concat hcounts]
      apply (hmade.alternates _).concat
      rw [hmade.last, hup]
      simp only
    · rw [switches_concat_of_not fun hboth => hk hboth.1]
      exact hmade.alternates h
  · by_cases hk : k.host = h
    · subst hk
      rw [switches_concat hcounts, List.getLast?_concat, hup]
      simp only [Option.some.injEq, Bool.false_eq_true, reduceCtorEq]
    · rw [switches_concat_of_not fun hboth => hk hboth.1, hmade.last]
      simp only [Option.some.injEq, hk, reduceCtorEq]
  · rw [settle_concat, hmade.settles]
    by_cases hk : k.host = h
    · rw [if_pos hk, hup]
      simp only [reduceCtorEq, decide_false]
    · rw [if_neg hk]
      simp only [reduceCtorEq, Option.some.injEq, hk]

theorem forget (hmade : Made none hosts delivered queue) (hup : k.up = false)
    (hforgotten : k.forgotten = true) : Made none hosts delivered (queue ++ [k]) := by
  have hnot : ∀ h, ¬ (k.host = h ∧ k.forgotten = false) := by
    intro h hboth
    rw [hforgotten] at hboth
    exact Bool.noConfusion hboth.2
  refine ⟨fun h => ?_, fun h => ?_, fun h => ?_⟩
  · rw [switches_concat_of_not (hnot h)]
    exact hmade.alternates h
  · rw [switches_concat_of_not (hnot h)]
    exact hmade.last h
  · rw [settle_concat, hmade.settles, hup]
    split
    · simp only [reduceCtorEq, decide_false]
    · rfl

/-- What the listener answers to after one call. -/
theorem mem_answers (h : Hostname) :
    decide (h.name ∈ Shared.answers hosts k) =
      settle reading h (decide (h.name ∈ hosts)) [k] := by
  have hsettle : settle reading h (decide (h.name ∈ hosts)) [k] =
      if k.host = h then k.up else decide (h.name ∈ hosts) := rfl
  have hname : h.name = k.host.name ↔ k.host = h := by
    obtain ⟨name, hlower⟩ := h
    obtain ⟨⟨name', hlower'⟩, -, -, -⟩ := k
    simp only [Hostname.mk.injEq]
    exact eq_comm
  rw [hsettle]
  unfold Shared.answers
  cases hup : k.up with
  | true =>
    simp only [if_true, k.host.lower, Finset.mem_insert, hname]
    split
    · next hk => simp only [hk, true_or, decide_true]
    · next hk => simp only [hk, false_or]
  | false =>
    simp only [Bool.false_eq_true, if_false, k.host.lower, Finset.mem_erase, ne_eq, hname]
    split
    · next hk => simp only [hk, not_true_eq_false, false_and, decide_false]
    · next hk => simp only [hk, not_false_eq_true, true_and]

theorem deliver {pre post : List HostCall} (hmade : Made host hosts delivered (pre ++ k :: post))
    (hturn : InTurn reading pre k) :
    Made host (Shared.answers hosts k) (delivered ++ [k]) (pre ++ post) := by
  have hsame : ∀ h, switches reading h ((delivered ++ [k]) ++ (pre ++ post)) =
      switches reading h (delivered ++ (pre ++ k :: post)) := fun h =>
    switches_of_inTurn hturn (hmade.alternates h).2
  refine ⟨fun h => ?_, fun h => ?_, fun h => ?_⟩
  · rw [hsame]
    exact hmade.alternates h
  · rw [hsame]
    exact hmade.last h
  · rw [mem_answers, settle_of_inTurn hturn]
    exact hmade.settles h

end Made

/-! ## The invariant -/

/-- The tunnel is up at the hostname it has. -/
structure Consistent (sv : TunnelService) : Prop where
  running : sv.state.status = .running ↔ sv.host.isSome = true
  url : ∀ h, sv.host = some h → sv.state.url = "https://" ++ h.name

theorem Consistent.host_of_active {sv : TunnelService} (h : Consistent sv)
    (hactive : sv.active = false) : sv.host = none := by
  rw [← Option.not_isSome_iff_eq_none, ← h.running]
  intro hrunning
  simp only [TunnelService.active, hrunning, Bool.true_eq_false] at hactive

/-- Without a hostname the tunnel is not up. -/
theorem Consistent.of_none {sv : TunnelService} (hhost : sv.host = none)
    (hstatus : sv.state.status ≠ .running) : Consistent sv := by
  constructor
  · simp only [hstatus, hhost, Option.isSome_none, Bool.false_eq_true]
  · intro h hh
    rw [hhost] at hh
    cases hh

section
variable {sv sv' : TunnelService} {call : Option HostCall} {hosts : Finset String}
  {delivered queue : List HostCall}

theorem Effect.consistent (h : Effect t t' new sv sv' call) (hsv : Consistent sv)
    (hfresh : t.early sv.gen = true → sv.host = none) : Consistent sv' := by
  cases h with
  | same => exact hsv
  | set _ hearly hf =>
    have hhost := hfresh hearly
    have hstatus : sv.state.status ≠ .running := by
      rw [ne_eq, hsv.running, hhost]
      exact Bool.false_ne_true
    exact .of_none hhost (hf _ hstatus)
  | start _ _ hhost hstatus =>
    refine .of_none hhost ?_
    rw [hstatus]
    exact Status.noConfusion
  | bump => exact ⟨hsv.running, hsv.url⟩
  | down _ _ hhost hstatus => exact .of_none hhost hstatus
  | up =>
    simp only [TunnelService.up, ne_eq, not_true_eq_false, if_false]
    refine ⟨by simp only [Option.isSome_some], fun h hh => ?_⟩
    cases hh
    rfl
  | forget _ _ _ hstate hhost =>
    constructor
    · rw [hstate, hhost]
      exact hsv.running
    · rw [hstate, hhost]
      exact hsv.url

theorem Effect.made (h : Effect t t' new sv sv' call) (hsv : Consistent sv)
    (hfresh : t.early sv.gen = true → sv.host = none)
    (hmade : Made sv.host hosts delivered queue) :
    Made sv'.host hosts delivered (queue ++ call.toList) := by
  cases h with
  | same | bump | set =>
    rw [Option.toList_none, List.append_nil]
    exact hmade
  | start hactive _ hhost =>
    rw [Option.toList_none, List.append_nil, hhost, ← hsv.host_of_active hactive]
    exact hmade
  | down _ _ hhost =>
    rw [hhost]
    unfold TunnelService.down
    cases hup : sv.host with
    | none =>
      rw [hup] at hmade
      rw [Option.map_none, Option.toList_none, List.append_nil]
      exact hmade
    | some host =>
      rw [hup] at hmade
      exact Made.down (k := ⟨host, false, sv.final, false⟩) hmade rfl rfl
  | @up host _ hearly _ =>
    rw [hfresh hearly] at hmade
    simp only [TunnelService.up, ne_eq, not_true_eq_false, if_false]
    exact Made.up (k := ⟨host, true, false, false⟩) hmade rfl rfl
  | forget _ hactive _ _ hhost hcall =>
    rw [hhost, hsv.host_of_active hactive]
    rw [hsv.host_of_active hactive] at hmade
    cases call with
    | none =>
      rw [Option.toList_none, List.append_nil]
      exact hmade
    | some k => exact hmade.forget (hcall k rfl).1 (hcall k rfl).2

/-- A section leaves the generation as it is and starts no run, or moves it on by one. -/
theorem Effect.gen (h : Effect t t' new sv sv' call) :
    sv'.gen = sv.gen ∧ new = [] ∨ sv'.gen = sv.gen + 1 ∧ (new = [] ∨
      ∃ r, new = [.run r .preparing] ∧ r.gen = sv'.gen ∧ sv'.host = none) := by
  cases h with
  | same hnew => exact .inl ⟨rfl, hnew⟩
  | set hnew => exact .inl ⟨rfl, hnew⟩
  | start _ hgen hhost _ hr hnew => exact .inr ⟨hgen, .inr ⟨_, hnew, hr, hhost⟩⟩
  | bump hnew => exact .inr ⟨rfl, .inl hnew⟩
  | down hnew hgen => exact .inl ⟨hgen, hnew⟩
  | @up host hnew =>
    have hgen : (sv.up sv.gen host).1.gen = sv.gen := by
      simp only [TunnelService.up, ne_eq, not_true_eq_false, if_false]
    exact .inl ⟨hgen, hnew⟩
  | forget hnew _ hgen => exact .inl ⟨hgen, hnew⟩

/-- A section that brings a hostname up is that of a run which has had none. -/
theorem Effect.host (h : Effect t t' new sv sv' call) : sv'.host = sv.host ∨ sv'.host = none ∨
    t.early sv.gen = true ∧ t'.early sv.gen = false := by
  cases h with
  | same | bump | set => exact .inl rfl
  | start _ _ hhost => exact .inr (.inl hhost)
  | down _ _ hhost => exact .inr (.inl hhost)
  | up _ hearly hlate => exact .inr (.inr ⟨hearly, hlate⟩)
  | forget _ _ _ _ hhost => exact .inl hhost

end

/-- What holds throughout a run in which the calls of `OnHost` are delivered in order. -/
structure Invariant (c : Threads.Config Shared Thread) : Prop where
  service : Consistent c.shared.tunnel
  made : Made c.shared.tunnel.host c.shared.hosts c.shared.delivered c.shared.queue
  pending : (c.threads.filterMap Thread.pending).Perm c.shared.queue
  gens : ∀ t ∈ c.threads, ∀ g, t.gen = some g → g ≤ c.shared.tunnel.gen
  early : c.threads.countP (Thread.early c.shared.tunnel.gen) ≤ 1
  fresh : ∀ t ∈ c.threads, t.early c.shared.tunnel.gen = true → c.shared.tunnel.host = none

theorem invariant_initial : Invariant (initial dataDir named) where
  service := .of_none rfl Status.noConfusion
  made := by
    refine ⟨fun h => ⟨by simp [initial, switches], List.isChain_nil⟩, fun h => ?_, fun h => ?_⟩
    · simp [initial, newTunnelService, switches]
    · simp [initial, newTunnelService, settle]
  pending := .refl _
  gens := fun t ht => nomatch ht
  early := Nat.zero_le 1
  fresh := fun t ht => nomatch ht

/-- A call that begins has nothing to report. -/
theorem Invariant.begins (h : Invariant c) (hcall : t.isCall) :
    Invariant ⟨c.shared, c.threads ++ [t]⟩ := by
  have hpending : t.pending = none := by cases t <;> first | rfl | exact hcall.elim
  have hgen : t.gen = none := by cases t <;> first | rfl | exact hcall.elim
  have hearly : ∀ g, t.early g = false := by cases t <;> first | exact fun _ => rfl | exact hcall.elim
  refine ⟨h.service, h.made, ?_, fun u hu g hg => ?_, ?_, fun u hu heq => ?_⟩
  · rw [List.filterMap_append, List.filterMap_cons, hpending, List.filterMap_nil, List.append_nil]
    exact h.pending
  · rcases List.mem_append.1 hu with hold | hnew
    · exact h.gens u hold g hg
    · rw [List.mem_singleton.1 hnew, hgen] at hg
      cases hg
  · rw [List.countP_append, List.countP_singleton, hearly]
    exact h.early
  · rcases List.mem_append.1 hu with hold | hnew
    · exact h.fresh u hold heq
    · rw [List.mem_singleton.1 hnew, hearly] at heq
      cases heq

/-- The call that is delivered is one on its way, and what it overtakes agrees with it. -/
theorem made_deliver {call : HostCall}
    (hmade : Made s.tunnel.host s.hosts s.delivered s.queue) (hmem : call ∈ s.queue)
    (hturn : InTurn reading (s.queue.takeWhile (· ≠ call)) call) :
    Made s.tunnel.host (s.deliver call).hosts (s.deliver call).delivered
      (s.deliver call).queue := by
  obtain ⟨pre, post, hpre, hqueue, herase⟩ := List.exists_erase_eq hmem
  have htake : s.queue.takeWhile (· ≠ call) = pre := by
    have hall : ∀ k ∈ pre, decide (k ≠ call) = true := by
      intro k hk
      rw [decide_eq_true_eq]
      rintro rfl
      exact hpre hk
    rw [hqueue, List.takeWhile_append_of_pos hall, List.takeWhile_cons_of_neg (by simp),
      List.append_nil]
  rw [htake] at hturn
  rw [hqueue] at hmade
  have hdelivered := hmade.deliver hturn
  rw [← herase] at hdelivered
  exact hdelivered

theorem not_early_of_gens {gen : Nat} (h : ∀ g, t.gen = some g → g ≤ gen) :
    t.early (gen + 1) = false := by
  cases t with
  | run r phase =>
    have hle := h r.gen rfl
    have hne : (r.gen == gen + 1) = false := by
      rw [beq_eq_false_iff_ne]
      omega
    simp only [Thread.early, hne, Bool.false_and]
  | _ => rfl

section
variable {call : Option HostCall} {others : List Thread}

theorem Effect.gens (h : Effect t t' new s.tunnel s'.tunnel call)
    (hgen : ∀ g, t'.gen = some g → t.gen = some g)
    (hgens : ∀ u ∈ t :: others, ∀ g, u.gen = some g → g ≤ s.tunnel.gen) :
    ∀ u ∈ t' :: (others ++ new), ∀ g, u.gen = some g → g ≤ s'.tunnel.gen := by
  obtain ⟨ht, hothers⟩ := List.forall_mem_cons.1 hgens
  have hle : s.tunnel.gen ≤ s'.tunnel.gen := by
    rcases h.gen with ⟨heq, -⟩ | ⟨heq, -⟩ <;> omega
  refine List.forall_mem_cons.2 ⟨fun g hg => (ht g (hgen g hg)).trans hle, fun u hu g hg => ?_⟩
  rcases List.mem_append.1 hu with hold | hnew
  · exact (hothers u hold g hg).trans hle
  · rcases h.gen with ⟨-, rfl⟩ | ⟨-, rfl | ⟨r, rfl, hr, -⟩⟩
    · cases hnew
    · cases hnew
    · rw [List.mem_singleton.1 hnew] at hg
      cases hg
      omega

/-- Before its hostname there is at most one run of the current generation, and none once it has
one. -/
theorem Effect.early (h : Effect t t' new s.tunnel s'.tunnel call)
    (hearly : ∀ g, t'.early g = true → t.early g = true)
    (hgen : ∀ g, t'.gen = some g → t.gen = some g)
    (hgens : ∀ u ∈ t :: others, ∀ g, u.gen = some g → g ≤ s.tunnel.gen)
    (hone : (t :: others).countP (Thread.early s.tunnel.gen) ≤ 1)
    (hfresh : ∀ u ∈ t :: others, u.early s.tunnel.gen = true → s.tunnel.host = none) :
    (t' :: (others ++ new)).countP (Thread.early s'.tunnel.gen) ≤ 1 ∧
      ∀ u ∈ t' :: (others ++ new), u.early s'.tunnel.gen = true → s'.tunnel.host = none := by
  obtain ⟨ht, hothers⟩ := List.forall_mem_cons.1 hgens
  rw [List.countP_cons] at hone
  rcases h.gen with ⟨heq, rfl⟩ | ⟨heq, hnew⟩
  · rw [heq, List.append_nil]
    constructor
    · rw [List.countP_cons]
      have hle : (if t'.early s.tunnel.gen = true then 1 else 0) ≤
          if t.early s.tunnel.gen = true then 1 else 0 := by
        split
        · next he => rw [if_pos (hearly _ he)]
        · exact Nat.zero_le _
      omega
    · intro u hu hu'
      rcases h.host with hsame | hnone | ⟨hbefore, hafter⟩
      · rw [hsame]
        rcases List.mem_cons.1 hu with rfl | hold
        · exact hfresh t List.mem_cons_self (hearly _ hu')
        · exact hfresh u (List.mem_cons_of_mem t hold) hu'
      · exact hnone
      · -- the run that has announced its hostname was the only one
        rcases List.mem_cons.1 hu with rfl | hold
        · rw [hafter] at hu'
          cases hu'
        · rw [if_pos hbefore] at hone
          have hzero : others.countP (Thread.early s.tunnel.gen) = 0 := by omega
          exact absurd hu' (List.countP_eq_zero.1 hzero u hold)
  · have ht' : t'.early s'.tunnel.gen = false := by
      rw [heq]
      exact not_early_of_gens fun g hg => ht g (hgen g hg)
    have hothers' : ∀ u ∈ others, u.early s'.tunnel.gen = false := by
      intro u hu
      rw [heq]
      exact not_early_of_gens (hothers u hu)
    have hzero : others.countP (Thread.early s'.tunnel.gen) = 0 :=
      List.countP_eq_zero.2 fun u hu => by rw [hothers' u hu]; exact Bool.false_ne_true
    constructor
    · rw [List.countP_cons, List.countP_append, ht', hzero]
      rcases hnew with rfl | ⟨r, rfl, -, -⟩
      · exact Nat.zero_le 1
      · rw [List.countP_singleton]
        split <;> decide
    · intro u hu hu'
      rcases List.mem_cons.1 hu with rfl | hmem
      · rw [ht'] at hu'
        cases hu'
      · rcases List.mem_append.1 hmem with hold | hstarted
        · rw [hothers' u hold] at hu'
          cases hu'
        · rcases hnew with rfl | ⟨r, rfl, -, hhost⟩
          · cases hstarted
          · exact hhost

end

theorem Invariant.acts (h : Invariant c) (hallowed : InOrder c t)
    (hact : Acts (program supported) c t c') : Invariant c' := by
  obtain ⟨t', new, others, hstep, hbefore, hafter⟩ := hact.exists_others
  have hstep' : Step supported t c.shared t' c'.shared new := hstep
  obtain ⟨hgen, hearly⟩ := hstep'.thread
  have hpending := h.pending
  have hgens : ∀ u ∈ t :: others, ∀ g, u.gen = some g → g ≤ c.shared.tunnel.gen := fun u hu =>
    h.gens u (hbefore.mem_iff.2 hu)
  have hone := h.early
  have hfresh : ∀ u ∈ t :: others, u.early c.shared.tunnel.gen = true →
      c.shared.tunnel.host = none := fun u hu => h.fresh u (hbefore.mem_iff.2 hu)
  rw [hbefore.countP_eq] at hone
  replace hpending := ((hbefore.filterMap _).symm.trans hpending)
  rw [List.filterMap_cons] at hpending
  cases hstep'.cases with
  | @deliver call hcall hnone hs hnew =>
    rw [hcall] at hpending
    have hmem : call ∈ c.shared.queue := hpending.mem_iff.1 List.mem_cons_self
    have htunnel : c'.shared.tunnel = c.shared.tunnel := by rw [hs]; rfl
    have heffect : Effect t t' new c.shared.tunnel c'.shared.tunnel none := by
      rw [htunnel]
      exact .same hnew
    have hearlies := heffect.early hearly hgen hgens hone hfresh
    have hthreads := heffect.gens hgen hgens
    refine ⟨?_, ?_, ?_, fun u hu => hthreads u (hafter.mem_iff.1 hu), ?_,
      fun u hu => hearlies.2 u (hafter.mem_iff.1 hu)⟩
    · rw [htunnel]
      exact h.service
    · rw [htunnel, hs]
      exact made_deliver h.made hmem (hallowed call hcall)
    · refine (hafter.filterMap _).trans ?_
      rw [hnew, List.append_nil, List.filterMap_cons, hnone, hs]
      exact (List.cons_perm_iff_perm_erase.1 hpending).2
    · rw [hafter.countP_eq]
      exact hearlies.1
  | @inSection call hnone hcall heffect hqueue hdelivered hhosts =>
    have hearlies := heffect.early hearly hgen hgens hone hfresh
    have hthreads := heffect.gens hgen hgens
    refine ⟨heffect.consistent h.service (hfresh t List.mem_cons_self), ?_, ?_,
      fun u hu => hthreads u (hafter.mem_iff.1 hu), ?_,
      fun u hu => hearlies.2 u (hafter.mem_iff.1 hu)⟩
    · rw [hqueue, hdelivered, hhosts]
      exact heffect.made h.service (hfresh t List.mem_cons_self) h.made
    · have hnew : new.filterMap Thread.pending = [] := by
        rcases heffect.gen with ⟨-, rfl⟩ | ⟨-, rfl | ⟨r, rfl, -, -⟩⟩ <;> rfl
      rw [hnone] at hpending
      refine (hafter.filterMap _).trans ?_
      rw [List.filterMap_cons, hcall, List.filterMap_append, hnew, List.append_nil, hqueue]
      cases call with
      | none =>
        rw [Option.toList_none, List.append_nil]
        exact hpending
      | some k => exact (hpending.cons k).trans (List.perm_append_singleton k _).symm
    · rw [hafter.countP_eq]
      exact hearlies.1

theorem invariant_run (hrun : Run (program supported) InOrder (initial dataDir named) trace c) :
    Invariant c := by
  induction hrun with
  | nil => exact invariant_initial
  | call _ t h ih => exact ih.begins h
  | act _ hallowed h ih => exact ih.acts hallowed h

/-! ## The hostnames the listener answers to -/

section
variable {gen : Nat} {sv : TunnelService}

theorem set_of_stale (h : gen < sv.gen) (f : TunnelState → TunnelState) : sv.set gen f = sv :=
  if_pos (Nat.ne_of_lt h)

theorem up_of_stale (h : gen < sv.gen) (host : Hostname) : sv.up gen host = (sv, none) :=
  if_pos (Nat.ne_of_lt h)

theorem fail_of_stale (h : gen < sv.gen) (msg : String) : sv.fail gen msg = (sv, none) :=
  if_pos (Nat.ne_of_lt h)

end

theorem after_none (s : Shared) : s.after (s.tunnel, none) = s := by
  rw [Shared.after, Option.toList_none, List.append_nil]

/-- A run whose generation has passed changes nothing and makes no call. -/
theorem Step.silent {r : RunInfo} {phase : Phase}
    (h : Step supported (.run r phase) s t' s' new) (hlt : r.gen < s.tunnel.gen) :
    s'.tunnel = s.tunnel ∧ s'.queue.Sublist s.queue := by
  cases h with
  | announced => exact ⟨rfl, List.erase_sublist⟩
  | downloading | percent | prepared =>
    refine ⟨?_, .refl _⟩
    simp only [set_of_stale hlt]
  | stopped | launched | timeout => exact ⟨rfl, .refl _⟩
  | notPrepared | notLaunched | exited =>
    rw [fail_of_stale hlt, after_none]
    exact ⟨rfl, .refl _⟩
  | line =>
    rw [up_of_stale hlt, after_none]
    exact ⟨rfl, .refl _⟩

theorem StepCases.gen_le (h : StepCases t s t' s' new) : s.tunnel.gen ≤ s'.tunnel.gen := by
  cases h with
  | deliver _ _ hs =>
    rw [hs]
    exact Nat.le_refl _
  | inSection _ _ heffect =>
    rcases heffect.gen with ⟨heq, -⟩ | ⟨heq, -⟩ <;> omega

/-- A hostname is up when the state says so. -/
theorem Consistent.host_iff {sv : TunnelService} (h : Consistent sv) (host : Hostname) :
    sv.host = some host ↔
      sv.state.status = .running ∧ sv.state.url = "https://" ++ host.name := by
  constructor
  · intro hhost
    exact ⟨h.running.2 (by rw [hhost]; rfl), h.url host hhost⟩
  · rintro ⟨hrunning, hurl⟩
    obtain ⟨host', hhost'⟩ := Option.isSome_iff_exists.1 (h.running.1 hrunning)
    have hname : host'.name = host.name := by
      have heq := congrArg String.toList ((h.url host' hhost').symm.trans hurl)
      rw [String.toList_append, String.toList_append] at heq
      exact String.toList_inj.1 (List.append_cancel_left heq)
    obtain ⟨name, hlower⟩ := host
    obtain ⟨name', hlower'⟩ := host'
    obtain rfl : name' = name := hname
    exact hhost'

/-- In a run in which no call of `OnHost` overtakes one that says the opposite of the same
hostname, the listener's hostnames follow the tunnel. -/
theorem hosts_follow_tunnel
    (hrun : Run (program supported) InOrder (initial dataDir named) trace c) :
    HostsFollow supported c := by
  have hinv := invariant_run hrun
  refine ⟨fun h => ?_, fun r phase c' hact hlt => ?_, fun t c' hact => ?_, fun hsettled h => ?_⟩
  · have hmade := hinv.made.alternates h
    rw [switches_append] at hmade
    exact hmade.of_append
  · obtain ⟨t', new, others, hstep, -, -⟩ := hact.exists_others
    exact Step.silent hstep hlt
  · obtain ⟨t', new, others, hstep, -, -⟩ := hact.exists_others
    exact (Step.cases hstep).gen_le
  · have hqueue : c.shared.queue = [] := by
      have hnone : c.threads.filterMap Thread.pending = [] := by
        rw [List.filterMap_eq_nil_iff]
        intro t ht
        rcases hsettled t ht with rfl | ⟨r, phase, rfl, hnone⟩
        · rfl
        · exact hnone
      exact List.perm_nil.1 (hnone ▸ hinv.pending).symm
    have hsettles := hinv.made.settles h
    rw [hqueue] at hsettles
    rw [← hinv.service.host_iff h]
    exact decide_eq_decide.1 hsettles

/-! ## A hostname that is told of too late -/

/-- A named tunnel on port 5000. -/
def exampleNamed : NamedTunnel where
  hostname := some ⟨"konnekt.example", by decide⟩
  port := 5000
  tokenSet := true

theorem registered_example : (TunnelRun.named ⟨"konnekt.example", by decide⟩).tunnelUp
    "Registered tunnel connection" = some ⟨"konnekt.example", by decide⟩ := by
  decide

/-- A tunnel that has come up, and of which the listener has been told. -/
theorem hosts_follow_tunnel_up : ∃ trace c, Run (program true) InOrder (initial true exampleNamed)
    trace c ∧ c.shared.tunnel.state.url = "https://konnekt.example" ∧ HostsFollow true c := by
  have hquiet : ∀ c t, t.pending = none → InOrder c t := by
    intro c t hnone call hcall
    rw [hnone] at hcall
    cases hcall
  have honly : ∀ c t call, t.pending = some call → c.shared.queue = [call] → InOrder c t := by
    intro c t call hcall hqueue k hk
    obtain rfl := Option.some.inj (hcall.symm.trans hk)
    rw [hqueue, List.takeWhile_cons_of_neg (by simp)]
    exact fun m hm => nomatch hm
  have hbegin : Run (program true) InOrder (initial true exampleNamed) [] _ := .nil
  have hstart := (hbegin.call (.start (some ⟨"127.0.0.1", 5000⟩)) trivial).actAt [] [] rfl
    (hquiet _ _ rfl) (.start rfl)
  have hprepared := hstart.actAt [.done] [] rfl (hquiet _ _ rfl) (.prepared (.inl rfl))
  have hlaunched := hprepared.actAt [.done] [] rfl (hquiet _ _ rfl) .launched
  have hline := hlaunched.actAt [.done] [] rfl (hquiet _ _ rfl) (.line registered_example)
  have hannounced := hline.actAt [.done] [] rfl (honly _ _ _ rfl rfl) .announced
  exact ⟨_, _, hannounced, rfl, hosts_follow_tunnel hannounced⟩

/-- The tunnel of a run that has failed is started again and comes up, and the listener is told of
it before it is told that the failed run's hostname has gone. -/
theorem not_hosts_follow_tunnel : ¬ ∀ trace c,
    Run (program true) Unrestricted (initial true exampleNamed) trace c → HostsFollow true c := by
  intro h
  have hbegin : Run (program true) Unrestricted (initial true exampleNamed) [] _ := .nil
  have hstart := (hbegin.call (.start (some ⟨"127.0.0.1", 5000⟩)) trivial).actAt [] [] rfl
    trivial (.start rfl)
  have hprepared := hstart.actAt [.done] [] rfl trivial (.prepared (.inl rfl))
  have hlaunched := hprepared.actAt [.done] [] rfl trivial .launched
  have hline := hlaunched.actAt [.done] [] rfl trivial (.line registered_example)
  have hannounced := hline.actAt [.done] [] rfl trivial .announced
  -- `cloudflared` exits, and before the listener is told the tunnel is started again
  have hexited := hannounced.actAt [.done] [] rfl trivial
    (.exited "exit status 1" "" (fun hmem => nomatch hmem))
  have hagain := (hexited.call (.start (some ⟨"127.0.0.1", 5000⟩)) trivial).actAt
    [.done, .report _] [] rfl trivial (.start rfl)
  have hprepared' := hagain.actAt [.done, .report _, .done] [] rfl trivial (.prepared (.inl rfl))
  have hlaunched' := hprepared'.actAt [.done, .report _, .done] [] rfl trivial .launched
  have hline' := hlaunched'.actAt [.done, .report _, .done] [] rfl trivial
    (.line registered_example)
  have hannounced' := hline'.actAt [.done, .report _, .done] [] rfl trivial .announced
  have hlate := hannounced'.actAt [.done] [.done, .run _ _] rfl trivial .report
  refine absurd ((h _ _ hlate).hosts (fun t ht => ?_) ⟨"konnekt.example", by decide⟩) ?_
  · change t ∈ [.done, .done, .done,
      .run ⟨2, .named ⟨"konnekt.example", by decide⟩⟩ (.reading false true)] at ht
    simp only [List.mem_cons, List.not_mem_nil, or_false, or_self_left] at ht
    rcases ht with rfl | rfl
    · exact .inl rfl
    · exact .inr ⟨_, _, rfl, rfl⟩
  · decide +kernel

end Konnekt.Remote.Tunnel
