import Konnekt.Correctness.TunnelHosts
import Konnekt.Remote.TunnelBinding

/-!
# The tunnel and the run of its listener

The change callback asks whether the listener is running when it is delivered, not
which run has ended, and a watcher decides and stops in two steps. The tunnel keeps to
the listener it was started for when no such answer is about another run.
-/

namespace Konnekt.Remote.Tunnel

open Threads

variable {supported dataDir : Bool} {named : NamedTunnel} {c c' : Threads.Config Services BoundThread}
  {trace : Trace Services BoundThread} {s s' : Shared} {t t' : Thread} {new : List Thread}

/-- The address the current generation was started for, if it is that of a run. -/
def Shared.target (s : Shared) : Option Addr :=
  match s.started with
  | some (gen, addr) => if gen = s.tunnel.gen then some addr else none
  | none => none

/-- The address the listener is bound to. -/
def Services.addr (s : Services) : Option Addr := s.listener.run.map Prod.snd

/-- Every call and every callback has returned. -/
def AllReturned (c : Threads.Config Services BoundThread) : Prop :=
  ∀ u ∈ c.threads, u = .tunnel .done ∨ (∃ r phase, u = .tunnel (.run r phase) ∧
    (Thread.run r phase).pending = none) ∨ ∃ run, u = .watch run ∨ u = .checking run

/-- The tunnel does not outlive the listener it was started for. -/
structure TunnelBound (supported : Bool) (c : Threads.Config Services BoundThread) : Prop where
  /-- In the end a tunnel that is starting or running was started for the address bound now. -/
  bound : AllReturned c → c.shared.tunnel.tunnel.active = true →
    ∃ gen addr, c.shared.tunnel.started = some (gen, addr) ∧ c.shared.addr = some addr
  /-- A run of the listener is ended by a `Stop` called during it, or by its own watcher. -/
  ends : ∀ u c' run addr, Acts (binding supported) c u c' →
    c.shared.listener.run = some (run, addr) → c'.shared.listener.run ≠ some (run, addr) →
      u = .stop (some run) ∨ u = .idleStop run

/-- The listener is started while no `Stop` of it waits for the lock, a watcher finds only its own
run idle, and the tunnel is left running or is started for the address bound then, unless it is
still to be asked about or stopped. `Stop` of the tunnel returns at once when no run is current. -/
def Orderly (supported : Bool) (c : Threads.Config Services BoundThread) : BoundThread → Prop
  | .start _ => ∀ u ∈ c.threads, u.stopping = false
  | .checking run => c.shared.listener.idle = true →
      c.shared.listener.run.map Prod.fst = some run
  | .changed => c.shared.listener.run.isSome = true →
      ∀ addr, c.shared.tunnel.target = some addr →
        c.shared.addr = some addr ∨ 2 ≤ c.threads.countP BoundThread.guards
  | .tunnel (.start addr) => ∀ sv target plan,
      c.shared.tunnel.tunnel.start supported addr = .ok (sv, target, plan) →
        c.shared.addr = some target ∨ ∃ u ∈ c.threads, u.guards = true
  | .tunnel .stop => c.shared.tunnel.tunnel.stopBegin = none → c.shared.tunnel.target = none
  | _ => True

/-! ## What a step of the tunnel does -/

/-- A `Stop` between its two sections. -/
def Thread.ending : Thread → Bool
  | .cancelling _ | .finishing => true
  | _ => false

/-- A step of the tunnel starts a run, begins or gives up to stop it, or leaves the generation as
it is. -/
inductive TunnelCases (supported : Bool) (t : Thread) (s : Shared) (t' : Thread) (s' : Shared)
    (new : List Thread) : Prop
  | start {addr : Option Addr} {target : Addr} {plan : TunnelRun} (ht : t = .start addr)
      (hstart : s.tunnel.start supported addr = .ok (s'.tunnel, target, plan))
      (hgen : s'.tunnel.gen = s.tunnel.gen + 1)
      (hstarted : s'.started = some (s'.tunnel.gen, target)) (ht' : t' = .done)
      (hnew : new = [.run ⟨s'.tunnel.gen, plan⟩ .preparing])
  | stopNothing (ht : t = .stop) (hnothing : s.tunnel.stopBegin = none) (hs : s' = s)
      (ht' : t' = .done) (hnew : new = [])
  | stopBegin (ht : t = .stop) (hgen : s'.tunnel.gen = s.tunnel.gen + 1)
      (hstarted : s'.started = s.started) (ht' : t'.ending = true) (hnew : new = [])
  | rest (ht : t ≠ .stop) (hgen : s'.tunnel.gen = s.tunnel.gen) (hstarted : s'.started = s.started)
      (hnew : new = []) (hactive : s'.tunnel.active = true →
        s.tunnel.active = true ∧ (t.ending = true → t'.ending = true) ∨
          t.gen = some s.tunnel.gen)

theorem gen_of_start {sv sv' : TunnelService} {addr : Option Addr} {target : Addr}
    {plan : TunnelRun} (h : sv.start supported addr = .ok (sv', target, plan)) :
    sv'.gen = sv.gen + 1 := by
  have heffect : Effect .done .done [.run ⟨sv'.gen, plan⟩ .preparing] sv sv' none := effect_start h
  rcases heffect.gen with ⟨-, hnil⟩ | ⟨hgen, -⟩
  · cases hnil
  · exact hgen

theorem gen_of_stopBegin {sv sv' : TunnelService} {run : Option Nat}
    (h : sv.stopBegin = some (sv', run)) : sv'.gen = sv.gen + 1 := by
  unfold TunnelService.stopBegin at h
  split at h
  · cases h
  · cases h
    rfl

theorem Configures.same {sv : TunnelService} {result : TunnelService × Option HostCall}
    (h : Configures sv result) : result.1.gen = sv.gen ∧ result.1.active = sv.active := by
  obtain ⟨named, hnamed⟩ := h.tunnel
  rw [hnamed]
  exact ⟨rfl, rfl⟩

section
variable {gen : Nat} {sv : TunnelService}

theorem gen_set (gen : Nat) (f : TunnelState → TunnelState) (sv : TunnelService) :
    (sv.set gen f).gen = sv.gen := by
  unfold TunnelService.set
  split <;> rfl

theorem gen_up (gen : Nat) (host : Hostname) (sv : TunnelService) :
    (sv.up gen host).1.gen = sv.gen := by
  unfold TunnelService.up
  split <;> rfl

theorem gen_fail (gen : Nat) (msg : String) (sv : TunnelService) :
    (sv.fail gen msg).1.gen = sv.gen := by
  unfold TunnelService.fail
  split <;> rfl

/-- A report of a run changes what is under way only when the run is the current one. -/
theorem active_set (f : TunnelState → TunnelState) (h : (sv.set gen f).active = true) :
    sv.active = true ∨ gen = sv.gen := by
  unfold TunnelService.set at h
  split at h
  · exact .inl h
  · next hgen => exact .inr (not_not.1 hgen)

theorem active_up (host : Hostname) (h : (sv.up gen host).1.active = true) :
    sv.active = true ∨ gen = sv.gen := by
  unfold TunnelService.up at h
  split at h
  · exact .inl h
  · next hgen => exact .inr (not_not.1 hgen)

theorem active_fail (msg : String) (h : (sv.fail gen msg).1.active = true) :
    sv.active = true := by
  unfold TunnelService.fail at h
  split at h
  · exact h
  · cases h

end

theorem Step.tunnelCases (h : Step supported t s t' s' new) :
    TunnelCases supported t s t' s' new := by
  have hrun : ∀ {r : RunInfo} {phase : Phase} {p : Prop},
      p ∨ r.gen = s.tunnel.gen →
        p ∧ ((Thread.run r phase).ending = true → t'.ending = true) ∨
          (Thread.run r phase).gen = some s.tunnel.gen := by
    intro r phase p h
    rcases h with hp | hgen
    · exact .inl ⟨hp, fun h => nomatch h⟩
    · exact .inr (congrArg some hgen)
  cases h with
  | start h => exact .start rfl h (gen_of_start h) rfl rfl rfl
  | stopNothing h => exact .stopNothing rfl h rfl rfl rfl
  | stopBegin h => exact .stopBegin rfl (gen_of_stopBegin h) rfl rfl rfl
  | startRefused | saveRefused | forgetRefused | report =>
    exact .rest Thread.noConfusion rfl rfl rfl fun h => .inl ⟨h, fun h => nomatch h⟩
  | cancel => exact .rest Thread.noConfusion rfl rfl rfl fun h => .inl ⟨h, fun _ => rfl⟩
  | stopEnd => exact .rest Thread.noConfusion rfl rfl rfl fun h => nomatch h
  | saveNamed h =>
    obtain ⟨hgen, hactive⟩ := (configures_saveNamed h).same
    exact .rest Thread.noConfusion hgen rfl rfl fun h =>
      .inl ⟨hactive.symm.trans h, fun h => nomatch h⟩
  | forgetNamed h =>
    obtain ⟨hgen, hactive⟩ := (configures_forgetNamed h).same
    exact .rest Thread.noConfusion hgen rfl rfl fun h =>
      .inl ⟨hactive.symm.trans h, fun h => nomatch h⟩
  | announced | stopped | launched | timeout =>
    exact .rest Thread.noConfusion rfl rfl rfl fun h => hrun (.inl h)
  | downloading | percent | prepared =>
    exact .rest Thread.noConfusion (gen_set _ _ _) rfl rfl fun h => hrun (active_set _ h)
  | notPrepared | notLaunched | exited =>
    exact .rest Thread.noConfusion (gen_fail _ _ _) rfl rfl fun h => hrun (.inl (active_fail _ h))
  | line => exact .rest Thread.noConfusion (gen_up _ _ _) rfl rfl fun h => hrun (active_up _ h)

/-! ## The invariant -/

/-- What holds throughout an orderly run, of the two services and their threads. -/
structure BoundInvariant (s : Services) (threads : List BoundThread) : Prop where
  gens : ∀ t g, .tunnel t ∈ threads → t.gen = some g → g ≤ s.tunnel.tunnel.gen
  started : ∀ gen addr, s.tunnel.started = some (gen, addr) → gen ≤ s.tunnel.tunnel.gen
  current : ∀ t, .tunnel t ∈ threads → t.gen = some s.tunnel.tunnel.gen → s.tunnel.target ≠ none
  status : s.tunnel.tunnel.active = true →
    s.tunnel.target ≠ none ∨ ∃ t, .tunnel t ∈ threads ∧ t.ending = true
  guarded : ∀ addr, s.tunnel.target = some addr →
    s.addr = some addr ∨ ∃ u ∈ threads, u.guards = true
  stops : ∀ called, .stop called ∈ threads → ∀ run addr, s.listener.run = some (run, addr) →
    called = some run
  idles : ∀ watched, .idleStop watched ∈ threads → ∀ run addr,
    s.listener.run = some (run, addr) → watched = run

namespace BoundInvariant

variable {v v' : Services} {threads threads' others : List BoundThread} {u u' : BoundThread}

theorem perm (h : BoundInvariant v threads) (hperm : threads.Perm threads') :
    BoundInvariant v threads' where
  gens t g ht := h.gens t g (hperm.mem_iff.2 ht)
  started := h.started
  current t ht := h.current t (hperm.mem_iff.2 ht)
  status hactive := by
    rcases h.status hactive with htarget | ⟨t, ht, hending⟩
    · exact .inl htarget
    · exact .inr ⟨t, hperm.mem_iff.1 ht, hending⟩
  guarded addr htarget := by
    rcases h.guarded addr htarget with haddr | ⟨u, hu, hguards⟩
    · exact .inl haddr
    · exact .inr ⟨u, hperm.mem_iff.1 hu, hguards⟩
  stops called hmem := h.stops called (hperm.mem_iff.2 hmem)
  idles watched hmem := h.idles watched (hperm.mem_iff.2 hmem)

theorem begins (h : BoundInvariant v threads) (hcall : u.isCall) :
    BoundInvariant v (threads ++ [u]) := by
  have hgen : ∀ t, u = .tunnel t → t.gen = none := by
    rintro t rfl
    cases t <;> first | rfl | exact hcall.elim
  have hstop : ∀ called, u ≠ .stop called := by
    rintro called rfl
    exact hcall.elim
  have hidle : ∀ watched, u ≠ .idleStop watched := by
    rintro watched rfl
    exact hcall.elim
  refine ⟨fun t g ht hg => ?_, h.started, fun t ht hg => ?_, fun hactive => ?_,
    fun addr htarget => ?_, fun called hmem => ?_, fun watched hmem => ?_⟩
  · rcases List.mem_append.1 ht with hold | hnew
    · exact h.gens t g hold hg
    · rw [hgen t (List.mem_singleton.1 hnew).symm] at hg
      cases hg
  · rcases List.mem_append.1 ht with hold | hnew
    · exact h.current t hold hg
    · rw [hgen t (List.mem_singleton.1 hnew).symm] at hg
      cases hg
  · rcases h.status hactive with htarget | ⟨t, ht, hending⟩
    · exact .inl htarget
    · exact .inr ⟨t, List.mem_append_left _ ht, hending⟩
  · rcases h.guarded addr htarget with haddr | ⟨u, hu, hguards⟩
    · exact .inl haddr
    · exact .inr ⟨u, List.mem_append_left _ hu, hguards⟩
  · rcases List.mem_append.1 hmem with hold | hnew
    · exact h.stops called hold
    · exact absurd (List.mem_singleton.1 hnew).symm (hstop called)
  · rcases List.mem_append.1 hmem with hold | hnew
    · exact h.idles watched hold
    · exact absurd (List.mem_singleton.1 hnew).symm (hidle watched)

theorem target_of_same {s s' : Shared} (hgen : s'.tunnel.gen = s.tunnel.gen)
    (hstarted : s'.started = s.started) : s'.target = s.target := by
  rw [Shared.target, Shared.target, hstarted, hgen]

/-- A generation that has been moved on is not that of a run. -/
theorem target_of_moved (h : ∀ gen addr, s.started = some (gen, addr) → gen ≤ s.tunnel.gen)
    (hgen : s'.tunnel.gen = s.tunnel.gen + 1) (hstarted : s'.started = s.started) :
    s'.target = none := by
  rw [Shared.target, hstarted]
  cases hs : s.started with
  | none => rfl
  | some last =>
    have hle := h last.1 last.2 hs
    exact if_neg (by omega)

theorem mem_tunnel {x : Thread} {new : List Thread}
    (h : .tunnel x ∈ BoundThread.tunnel t' :: (others ++ new.map .tunnel)) :
    x = t' ∨ .tunnel x ∈ others ∨ x ∈ new := by
  rcases List.mem_cons.1 h with heq | hmem
  · exact .inl (BoundThread.tunnel.inj heq)
  · rcases List.mem_append.1 hmem with hold | hnew
    · exact .inr (.inl hold)
    · obtain ⟨y, hy, heq⟩ := List.mem_map.1 hnew
      exact .inr (.inr (BoundThread.tunnel.inj heq ▸ hy))

/-- A step of the tunnel leaves the listener and its threads alone. -/
theorem mem_of_mem_listener {u : BoundThread} (hu : ∀ x, u ≠ .tunnel x)
    (h : u ∈ BoundThread.tunnel t' :: (others ++ new.map .tunnel)) :
    u ∈ BoundThread.tunnel t :: others := by
  rcases List.mem_cons.1 h with heq | hmem
  · exact absurd heq (hu t')
  · rcases List.mem_append.1 hmem with hold | hnew
    · exact List.mem_cons_of_mem _ hold
    · obtain ⟨y, -, heq⟩ := List.mem_map.1 hnew
      exact absurd heq.symm (hu y)

/-- A guard that is not the thread that acts stays. -/
theorem guard_of_others {t : Thread} (ht : t ≠ .stop) {rest : List BoundThread}
    (h : ∃ u ∈ BoundThread.tunnel t :: others, u.guards = true) :
    ∃ u ∈ BoundThread.tunnel t' :: (others ++ rest), u.guards = true := by
  obtain ⟨u, hu, hguards⟩ := h
  rcases List.mem_cons.1 hu with rfl | hold
  · cases t <;> first | exact absurd rfl ht | cases hguards
  · exact ⟨u, List.mem_cons_of_mem _ (List.mem_append_left _ hold), hguards⟩

theorem tunnelStep {shared : Shared} (h : BoundInvariant v (.tunnel t :: others))
    (hallowed : Orderly supported ⟨v, .tunnel t :: others⟩ (.tunnel t))
    (hstep : Step supported t v.tunnel t' shared new) :
    BoundInvariant { v with tunnel := shared } (.tunnel t' :: (others ++ new.map .tunnel)) := by
  have hstops : ∀ called, .stop called ∈ BoundThread.tunnel t' :: (others ++ new.map .tunnel) →
      ∀ run addr, v.listener.run = some (run, addr) → called = some run := fun called hmem =>
    h.stops called (mem_of_mem_listener (fun x heq => nomatch heq) hmem)
  have hidles : ∀ watched,
      .idleStop watched ∈ BoundThread.tunnel t' :: (others ++ new.map .tunnel) →
        ∀ run addr, v.listener.run = some (run, addr) → watched = run := fun watched hmem =>
    h.idles watched (mem_of_mem_listener (fun x heq => nomatch heq) hmem)
  have hkept := hstep.thread.1
  have hold : ∀ x g, .tunnel x ∈ others → x.gen = some g → g ≤ v.tunnel.tunnel.gen := fun x g hx =>
    h.gens x g (List.mem_cons_of_mem _ hx)
  cases hstep.tunnelCases with
  | @start addr target plan ht hstart hgen hstarted ht' hnew =>
    subst ht ht' hnew
    have htarget : shared.target = some target := by
      rw [Shared.target, hstarted]
      exact if_pos rfl
    refine ⟨fun x g hx hg => ?_, fun gen addr hs => ?_, fun x _ _ => ?_, fun _ => .inl ?_,
      fun a ha => ?_, hstops, hidles⟩
    · rcases mem_tunnel hx with rfl | hx | hx
      · cases hg
      · have hle := hold x g hx hg
        simp only [hgen]
        omega
      · rw [List.mem_singleton.1 hx] at hg
        cases hg
        exact Nat.le_refl _
    · rw [hstarted] at hs
      cases hs
      exact Nat.le_refl _
    · rw [htarget]
      exact Option.some_ne_none target
    · rw [htarget]
      exact Option.some_ne_none target
    · obtain rfl := Option.some.inj (htarget.symm.trans ha)
      rcases hallowed _ _ _ hstart with haddr | hguard
      · exact .inl haddr
      · exact .inr (guard_of_others Thread.noConfusion hguard)
  | stopNothing ht hnothing hs ht' hnew =>
    subst ht ht' hnew hs
    have hnone : v.tunnel.target = none := hallowed hnothing
    refine ⟨fun x g hx hg => ?_, h.started, fun x hx hg => ?_, fun hactive => ?_, fun a ha => ?_,
      hstops, hidles⟩
    · rcases mem_tunnel hx with rfl | hx | hx
      · cases hg
      · exact hold x g hx hg
      · cases hx
    · rcases mem_tunnel hx with rfl | hx | hx
      · cases hg
      · exact h.current x (List.mem_cons_of_mem _ hx) hg
      · cases hx
    · rcases h.status hactive with htarget | ⟨x, hx, hending⟩
      · exact .inl htarget
      · rcases List.mem_cons.1 hx with heq | hx
        · cases heq
          cases hending
        · exact .inr ⟨x, List.mem_cons_of_mem _ (List.mem_append_left _ hx), hending⟩
    · rw [hnone] at ha
      cases ha
  | stopBegin ht hgen hstarted ht' hnew =>
    subst ht hnew
    have hnone : shared.target = none := target_of_moved h.started hgen hstarted
    have hmoved : ∀ x g, .tunnel x ∈ BoundThread.tunnel t' :: (others ++ [].map .tunnel) →
        x.gen = some g → g ≤ v.tunnel.tunnel.gen := by
      intro x g hx hg
      rcases mem_tunnel hx with rfl | hx | hx
      · cases hkept g hg
      · exact hold x g hx hg
      · cases hx
    refine ⟨fun x g hx hg => ?_, fun gen addr hs => ?_, fun x hx hg => ?_,
      fun _ => .inr ⟨t', List.mem_cons_self, ht'⟩, fun a ha => ?_, hstops, hidles⟩
    · have hle := hmoved x g hx hg
      simp only [hgen]
      omega
    · have hle := h.started gen addr (hstarted ▸ hs)
      simp only [hgen]
      omega
    · have hle := hmoved x _ hx hg
      simp only [hgen] at hle
      omega
    · rw [hnone] at ha
      cases ha
  | rest ht hgen hstarted hnew hactive =>
    subst hnew
    have htarget : shared.target = v.tunnel.target := target_of_same hgen hstarted
    have hbefore : ∀ x g, .tunnel x ∈ BoundThread.tunnel t' :: (others ++ [].map .tunnel) →
        x.gen = some g → ∃ y, .tunnel y ∈ BoundThread.tunnel t :: others ∧ y.gen = some g := by
      intro x g hx hg
      rcases mem_tunnel hx with rfl | hx | hx
      · exact ⟨t, List.mem_cons_self, hkept g hg⟩
      · exact ⟨x, List.mem_cons_of_mem _ hx, hg⟩
      · cases hx
    refine ⟨fun x g hx hg => ?_, fun gen addr hs => ?_, fun x hx hg => ?_, fun ha => ?_,
      fun a ha => ?_, hstops, hidles⟩
    · obtain ⟨y, hy, hyg⟩ := hbefore x g hx hg
      simp only [hgen]
      exact h.gens y g hy hyg
    · simp only [hgen]
      exact h.started gen addr (hstarted ▸ hs)
    · obtain ⟨y, hy, hyg⟩ := hbefore x _ hx hg
      simp only [hgen] at hyg
      simp only [htarget]
      exact h.current y hy hyg
    · simp only [htarget]
      rcases hactive ha with ⟨hwas, hending⟩ | hcurrent
      · rcases h.status hwas with hsome | ⟨x, hx, hx'⟩
        · exact .inl hsome
        · rcases List.mem_cons.1 hx with heq | hx
          · cases heq
            exact .inr ⟨t', List.mem_cons_self, hending hx'⟩
          · exact .inr ⟨x, List.mem_cons_of_mem _ (List.mem_append_left _ hx), hx'⟩
      · exact .inl (h.current t List.mem_cons_self hcurrent)
    · simp only [htarget] at ha
      rcases h.guarded a ha with haddr | hguard
      · exact .inl haddr
      · exact .inr (guard_of_others ht hguard)

/-- A step of the listener leaves the tunnel and its threads alone. -/
theorem of_listener {new : List BoundThread} (h : BoundInvariant v (u :: others))
    (htunnel : v'.tunnel = v.tunnel)
    (hu : ∀ x, u = .tunnel x → x.ending = false)
    (hnew : ∀ x, .tunnel x ∈ u' :: new → x.gen = none)
    (hguarded : ∀ addr, v.tunnel.target = some addr →
      (v.addr = some addr ∨ ∃ w ∈ u :: others, w.guards = true) →
        v'.addr = some addr ∨ ∃ w ∈ u' :: (others ++ new), w.guards = true)
    (hstops : ∀ called, .stop called ∈ u' :: (others ++ new) → ∀ run addr,
      v'.listener.run = some (run, addr) → called = some run)
    (hidles : ∀ watched, .idleStop watched ∈ u' :: (others ++ new) → ∀ run addr,
      v'.listener.run = some (run, addr) → watched = run) :
    BoundInvariant v' (u' :: (others ++ new)) := by
  have hbefore : ∀ x g, .tunnel x ∈ u' :: (others ++ new) → x.gen = some g →
      .tunnel x ∈ u :: others := by
    intro x g hx hg
    have hnone : .tunnel x ∈ u' :: new → False := by
      intro hmem
      rw [hnew x hmem] at hg
      cases hg
    rcases List.mem_cons.1 hx with heq | hmem
    · exact (hnone (heq ▸ List.mem_cons_self)).elim
    · rcases List.mem_append.1 hmem with hold | hstarted
      · exact List.mem_cons_of_mem _ hold
      · exact (hnone (List.mem_cons_of_mem _ hstarted)).elim
  refine ⟨fun x g hx hg => ?_, fun gen addr hs => ?_, fun x hx hg => ?_, fun hactive => ?_,
    fun addr ha => ?_, hstops, hidles⟩
  · rw [htunnel]
    exact h.gens x g (hbefore x g hx hg) hg
  · rw [htunnel] at hs ⊢
    exact h.started gen addr hs
  · rw [htunnel] at hg ⊢
    exact h.current x (hbefore x _ hx hg) hg
  · rw [htunnel] at hactive ⊢
    rcases h.status hactive with htarget | ⟨x, hx, hending⟩
    · exact .inl htarget
    · rcases List.mem_cons.1 hx with heq | hx
      · rw [hu x heq.symm] at hending
        cases hending
      · exact .inr ⟨x, List.mem_cons_of_mem _ (List.mem_append_left _ hx), hending⟩
  · rw [htunnel] at ha
    exact hguarded addr ha (h.guarded addr ha)

theorem stays {w : BoundThread} {new : List BoundThread} (hmem : w ∈ u :: others) (hne : w ≠ u) :
    w ∈ u' :: (others ++ new) := by
  rcases List.mem_cons.1 hmem with heq | hold
  · exact absurd heq hne
  · exact List.mem_cons_of_mem _ (List.mem_append_left _ hold)

/-- A step of the listener that ends no run, of a thread that guards nothing. -/
theorem of_quiet (h : BoundInvariant v (u :: others)) (htunnel : v'.tunnel = v.tunnel)
    (hrun : v'.listener.run = v.listener.run) (hu : ∀ x, u ≠ .tunnel x)
    (hguards : u.guards = false) (hnew : ∀ x, u' = .tunnel x → x.gen = none)
    (hstops : ∀ called, u' = .stop called → ∀ run addr,
      v.listener.run = some (run, addr) → called = some run)
    (hidles : ∀ watched, u' = .idleStop watched → ∀ run addr,
      v.listener.run = some (run, addr) → watched = run) :
    BoundInvariant v' (u' :: others) := by
  have hmem : ∀ w, w ∈ u' :: (others ++ []) → w = u' ∨ w ∈ others := by
    intro w hw
    rw [List.append_nil] at hw
    exact List.mem_cons.1 hw
  suffices hquiet : BoundInvariant v' (u' :: (others ++ [])) by
    rw [List.append_nil] at hquiet
    exact hquiet
  refine h.of_listener htunnel (fun x heq => absurd heq (hu x))
    (fun x hx => hnew x (List.mem_singleton.1 hx).symm) ?_ ?_ ?_
  · rintro addr - (haddr | ⟨w, hw, hw'⟩)
    · refine .inl ?_
      rw [Services.addr, hrun]
      exact haddr
    · refine .inr ⟨w, stays hw ?_, hw'⟩
      rintro rfl
      rw [hguards] at hw'
      cases hw'
  · intro called hw run addr ha
    rw [hrun] at ha
    rcases hmem _ hw with heq | hold
    · exact hstops called heq.symm run addr ha
    · exact h.stops called (List.mem_cons_of_mem _ hold) run addr ha
  · intro watched hw run addr ha
    rw [hrun] at ha
    rcases hmem _ hw with heq | hold
    · exact hidles watched heq.symm run addr ha
    · exact h.idles watched (List.mem_cons_of_mem _ hold) run addr ha

/-- A step of the listener after which the tunnel is still to be asked about or stopped. -/
theorem of_guard (h : BoundInvariant v (u :: others)) (htunnel : v'.tunnel = v.tunnel)
    (hrun : ∀ run, v'.listener.run = some run → v.listener.run = some run)
    (hu : ∀ x, u = .tunnel x → x.ending = false) (hguards : u'.guards = true) :
    BoundInvariant v' (u' :: others) := by
  suffices hguard : BoundInvariant v' (u' :: (others ++ [])) by
    rw [List.append_nil] at hguard
    exact hguard
  refine h.of_listener htunnel hu (fun x hx => ?_)
    (fun _ _ _ => .inr ⟨u', List.mem_cons_self, hguards⟩) ?_ ?_
  · rw [← List.mem_singleton.1 hx] at hguards
    cases x <;> first | rfl | cases hguards
  · intro called hw run addr ha
    rw [List.append_nil] at hw
    rcases List.mem_cons.1 hw with heq | hold
    · rw [← heq] at hguards
      cases hguards
    · exact h.stops called (List.mem_cons_of_mem _ hold) run addr (hrun _ ha)
  · intro watched hw run addr ha
    rw [List.append_nil] at hw
    rcases List.mem_cons.1 hw with heq | hold
    · rw [← heq] at hguards
      cases hguards
    · exact h.idles watched (List.mem_cons_of_mem _ hold) run addr (hrun _ ha)

theorem step {new : List BoundThread} (h : BoundInvariant v (u :: others))
    (hallowed : Orderly supported ⟨v, u :: others⟩ u)
    (hstep : BoundStep supported u v u' v' new) : BoundInvariant v' (u' :: (others ++ new)) := by
  have hsame : ∀ run, v.listener.run = some run → v.listener.run = some run := fun _ h => h
  cases hstep with
  | tunnel hs => exact h.tunnelStep hallowed hs
  | @start port _ bound hdown =>
    refine h.of_listener rfl (fun x heq => nomatch heq) (fun x hx => ?_)
      (fun _ _ _ => .inr ⟨.changed, List.mem_cons_self, rfl⟩) ?_ ?_
    · simp at hx
    · intro called hw
      have hwaits := hallowed (.stop called) (List.mem_cons_of_mem _ (by simpa using hw))
      cases hwaits
    · intro watched hw
      have hwaits := hallowed (.idleStop watched) (List.mem_cons_of_mem _ (by simpa using hw))
      cases hwaits
  | startRefused =>
    rw [List.append_nil]
    exact h.of_guard rfl hsame (fun x heq => nomatch heq) rfl
  | stopCall =>
    rw [List.append_nil]
    refine h.of_quiet rfl rfl (fun x heq => nomatch heq) rfl (fun x heq => nomatch heq) ?_
      (fun watched heq => nomatch heq)
    intro called heq run addr ha
    cases heq
    rw [ha]
    rfl
  | stop ht hrun =>
    rw [List.append_nil]
    refine h.of_guard rfl (fun run ha => nomatch ha) ?_ rfl
    rintro x rfl
    cases ht
  | stopNothing ht hrun =>
    rw [List.append_nil]
    refine h.of_quiet rfl rfl ?_ ?_ ?_ (fun called heq => nomatch heq)
      (fun watched heq => nomatch heq)
    · rintro x rfl
      cases ht
    · cases u <;> first | rfl | cases ht
    · intro x heq
      cases heq
      rfl
  | close =>
    rw [List.append_nil]
    exact h.of_guard rfl hsame (fun x heq => nomatch heq) rfl
  | running hrun =>
    refine h.of_listener rfl (fun x heq => nomatch heq) (fun x hx => ?_) ?_ ?_ ?_
    · cases BoundThread.tunnel.inj (List.mem_singleton.1 hx)
      rfl
    · intro addr htarget _
      rcases hallowed hrun addr htarget with haddr | hcount
      · exact .inl haddr
      · rw [List.countP_cons_of_pos (by rfl)] at hcount
        obtain ⟨w, hw, hw'⟩ := List.countP_pos_iff.1 (Nat.lt_of_succ_lt_succ hcount)
        exact .inr ⟨w, List.mem_cons_of_mem _ (List.mem_append_left _ hw), hw'⟩
    · intro called hw
      exact h.stops called (List.mem_cons_of_mem _ (by simpa using hw))
    · intro watched hw
      exact h.idles watched (List.mem_cons_of_mem _ (by simpa using hw))
  | stopTunnel =>
    rw [List.append_nil]
    exact h.of_guard rfl hsame (fun x heq => nomatch heq) rfl
  | watchStopped | openRefused | lapse | touch =>
    rw [List.append_nil]
    refine h.of_quiet rfl rfl (fun x heq => nomatch heq) rfl ?_ (fun called heq => nomatch heq)
      (fun watched heq => nomatch heq)
    intro x heq
    cases heq
    rfl
  | openTunnel =>
    rw [List.append_nil]
    refine h.of_quiet rfl rfl (fun x heq => nomatch heq) rfl ?_ (fun called heq => nomatch heq)
      (fun watched heq => nomatch heq)
    intro x heq
    cases heq
    rfl
  | tick | active =>
    rw [List.append_nil]
    exact h.of_quiet rfl rfl (fun x heq => nomatch heq) rfl (fun x heq => nomatch heq)
      (fun called heq => nomatch heq) (fun watched heq => nomatch heq)
  | idle hidle =>
    rw [List.append_nil]
    refine h.of_quiet rfl rfl (fun x heq => nomatch heq) rfl (fun x heq => nomatch heq)
      (fun called heq => nomatch heq) ?_
    intro watched heq run addr ha
    cases heq
    have hown := hallowed hidle
    simp only [ha, Option.map_some, Option.some.injEq] at hown
    exact hown.symm

end BoundInvariant

theorem Orderly.perm {threads threads' : List BoundThread} {v : Services} {u : BoundThread}
    (h : Orderly supported ⟨v, threads⟩ u) (hperm : threads.Perm threads') :
    Orderly supported ⟨v, threads'⟩ u := by
  cases u with
  | start port => exact fun w hw => h w (hperm.mem_iff.2 hw)
  | changed =>
    intro hrunning addr htarget
    rcases h hrunning addr htarget with haddr | hcount
    · exact .inl haddr
    · exact .inr (hperm.countP_eq _ ▸ hcount)
  | tunnel t =>
    cases t with
    | start addr =>
      intro sv target plan hstart
      rcases h sv target plan hstart with haddr | ⟨w, hw, hguards⟩
      · exact .inl haddr
      · exact .inr ⟨w, hperm.mem_iff.1 hw, hguards⟩
    | _ => exact h
  | _ => exact h

theorem boundInvariant_unbound :
    BoundInvariant (unbound dataDir named).shared (unbound dataDir named).threads where
  gens _ _ ht := nomatch ht
  started _ _ hs := nomatch hs
  current _ ht := nomatch ht
  status hactive := nomatch hactive
  guarded _ ha := nomatch ha
  stops _ hmem := nomatch hmem
  idles _ hmem := nomatch hmem

theorem boundInvariant_run
    (hrun : Run (binding supported) (Orderly supported) (unbound dataDir named) trace c) :
    BoundInvariant c.shared c.threads := by
  induction hrun with
  | nil => exact boundInvariant_unbound
  | call _ u hcall ih => exact ih.begins hcall
  | act _ hallowed hact ih =>
    obtain ⟨u', new, others, hstep, hbefore, hafter⟩ := hact.exists_others
    exact ((ih.perm hbefore).step (hallowed.perm hbefore) hstep).perm hafter.symm

/-! ## The listener of the tunnel -/

/-- Only a `Stop` ends a run of the listener. -/
theorem stopping_of_ended {v v' : Services} {u u' : BoundThread} {new : List BoundThread}
    {run : Nat} {addr : Addr} (hstep : BoundStep supported u v u' v' new)
    (hrun : v.listener.run = some (run, addr)) (hended : v'.listener.run ≠ some (run, addr)) :
    u.stopping = true := by
  cases hstep with
  | start bound hdown =>
    rw [hdown] at hrun
    cases hrun
  | stop ht => exact ht
  | stopNothing ht => exact ht
  | _ => exact absurd hrun hended

/-- In an orderly run the tunnel keeps to the listener it was started for, and a run of the
listener is ended by a `Stop` called during it or by its own watcher. -/
theorem tunnel_bound
    (hrun : Run (binding supported) (Orderly supported) (unbound dataDir named) trace c) :
    TunnelBound supported c := by
  have hinv := boundInvariant_run hrun
  refine ⟨fun hreturned hactive => ?_, fun u c' run addr hact hup hended => ?_⟩
  · have hquiet : ∀ u ∈ c.threads, u.guards = false ∧ ∀ x, u = .tunnel x → x.ending = false := by
      intro u hu
      rcases hreturned u hu with rfl | ⟨r, phase, rfl, -⟩ | ⟨run, rfl | rfl⟩
      · refine ⟨rfl, fun x heq => ?_⟩
        cases heq
        rfl
      · refine ⟨rfl, fun x heq => ?_⟩
        cases heq
        rfl
      · exact ⟨rfl, fun x heq => nomatch heq⟩
      · exact ⟨rfl, fun x heq => nomatch heq⟩
    have htarget : c.shared.tunnel.target ≠ none := by
      rcases hinv.status hactive with hsome | ⟨x, hx, hending⟩
      · exact hsome
      · rw [(hquiet _ hx).2 x rfl] at hending
        cases hending
    obtain ⟨addr, haddr⟩ := Option.ne_none_iff_exists'.1 htarget
    have hbound : c.shared.addr = some addr := by
      rcases hinv.guarded addr haddr with hsame | ⟨u, hu, hguards⟩
      · exact hsame
      · rw [(hquiet u hu).1] at hguards
        cases hguards
    unfold Shared.target at haddr
    split at haddr
    · next gen addr' hstarted =>
      split at haddr
      · cases haddr
        exact ⟨gen, addr, hstarted, hbound⟩
      · cases haddr
    · cases haddr
  · obtain ⟨u', new, others, hstep, -, -⟩ := hact.exists_others
    have hstops := stopping_of_ended hstep hup hended
    cases u with
    | stop called =>
      obtain rfl := hinv.stops called hact.mem run addr hup
      exact .inl rfl
    | idleStop watched =>
      obtain rfl := hinv.idles watched hact.mem run addr hup
      exact .inr rfl
    | _ => cases hstops

/-! ## A listener that is started again -/

/-- No named tunnel. -/
def exampleQuick : NamedTunnel where
  hostname := none
  port := 0
  tokenSet := false

/-- The tunnel is opened for the listener that is running. -/
theorem tunnel_bound_opened : ∃ trace c,
    Run (binding true) (Orderly true) (unbound true exampleQuick) trace c ∧
      c.shared.tunnel.tunnel.active = true ∧ TunnelBound true c := by
  have hbegin : Run (binding true) (Orderly true) (unbound true exampleQuick) [] _ := .nil
  have hlisten := (hbegin.call (.start 0) trivial).actAt [] [] rfl
    (fun u hu => by rw [List.mem_singleton.1 hu]; rfl)
    (.start 5000 rfl (.inl rfl) (by decide))
  have hchanged := hlisten.actAt [] [.watch 1] rfl (fun _ _ htarget => nomatch htarget)
    (.running rfl)
  have hopen := (hchanged.call .openTunnel trivial).actAt [.tunnel .done, .watch 1] [] rfl trivial
    (.openTunnel rfl)
  have hstart := hopen.actAt [.tunnel .done, .watch 1] [] rfl
    (fun sv target plan h => by cases h; exact .inl rfl) (.tunnel (.start rfl))
  exact ⟨_, _, hstart, rfl, tunnel_bound hstart⟩

/-- The listener is stopped and started again on another port before its change callback is
delivered, and the tunnel stays up for the old port. A watcher finds the listener idle, and stops
the run that has been started since. -/
theorem not_tunnel_bound :
    (¬ ∀ trace c, Run (binding true) Unrestricted (unbound true exampleQuick) trace c →
      AllReturned c → c.shared.tunnel.tunnel.active = true →
        ∃ gen addr, c.shared.tunnel.started = some (gen, addr) ∧ c.shared.addr = some addr) ∧
    ¬ ∀ trace c, Run (binding true) Unrestricted (unbound true exampleQuick) trace c →
      ∀ u c' run addr, Acts (binding true) c u c' →
        c.shared.listener.run = some (run, addr) → c'.shared.listener.run ≠ some (run, addr) →
          u = .stop (some run) ∨ u = .idleStop run := by
  have hbegin : Run (binding true) Unrestricted (unbound true exampleQuick) [] _ := .nil
  have hlisten := (hbegin.call (.start 0) trivial).actAt [] [] rfl trivial
    (.start 5000 rfl (.inl rfl) (by decide))
  have hchanged := hlisten.actAt [] [.watch 1] rfl trivial (.running rfl)
  constructor
  · intro h
    have hopen := (hchanged.call .openTunnel trivial).actAt [.tunnel .done, .watch 1] [] rfl
      trivial (.openTunnel rfl)
    have hstart := hopen.actAt [.tunnel .done, .watch 1] [] rfl trivial (.tunnel (.start rfl))
    have hstop := (hstart.call .stopCall trivial).actAt
      [.tunnel .done, .watch 1, .tunnel .done, .tunnel (.run ⟨1, .quick⟩ .preparing)] [] rfl
      trivial .stopCall
    have hstopped := hstop.actAt
      [.tunnel .done, .watch 1, .tunnel .done, .tunnel (.run ⟨1, .quick⟩ .preparing)] [] rfl
      trivial (.stop rfl rfl)
    have hagain := (hstopped.call (.start 0) trivial).actAt
      [.tunnel .done, .watch 1, .tunnel .done, .tunnel (.run ⟨1, .quick⟩ .preparing), .closing 1]
      [] rfl trivial (.start 6000 rfl (.inl rfl) (by decide))
    have hclosed := hagain.actAt
      [.tunnel .done, .watch 1, .tunnel .done, .tunnel (.run ⟨1, .quick⟩ .preparing)]
      [.changed, .watch 2] rfl trivial .close
    have hasked := hclosed.actAt
      [.tunnel .done, .watch 1, .tunnel .done, .tunnel (.run ⟨1, .quick⟩ .preparing)]
      [.changed, .watch 2] rfl trivial (.running rfl)
    have hasked' := hasked.actAt
      [.tunnel .done, .watch 1, .tunnel .done, .tunnel (.run ⟨1, .quick⟩ .preparing),
        .tunnel .done] [.watch 2] rfl trivial (.running rfl)
    refine absurd (h _ _ hasked' (fun u hu => ?_) rfl) ?_
    · change u ∈ [.tunnel .done, .watch 1, .tunnel .done,
        .tunnel (.run ⟨1, .quick⟩ .preparing), .tunnel .done, .tunnel .done, .watch 2] at hu
      simp only [List.mem_cons, List.not_mem_nil, or_false] at hu
      rcases hu with rfl | rfl | rfl | rfl | rfl | rfl | rfl
      · exact .inl rfl
      · exact .inr (.inr ⟨1, .inl rfl⟩)
      · exact .inl rfl
      · exact .inr (.inl ⟨_, _, rfl, rfl⟩)
      · exact .inl rfl
      · exact .inl rfl
      · exact .inr (.inr ⟨2, .inl rfl⟩)
    · rintro ⟨gen, addr, hstarted, haddr⟩
      cases hstarted
      cases haddr
  · intro h
    have hlapse := (hchanged.call .lapse trivial).actAt [.tunnel .done, .watch 1] [] rfl trivial
      .lapse
    have htick := hlapse.actAt [.tunnel .done] [.tunnel .done] rfl trivial .tick
    have hidle := htick.actAt [.tunnel .done] [.tunnel .done] rfl trivial (.idle rfl)
    have hstop := (hidle.call .stopCall trivial).actAt
      [.tunnel .done, .idleStop 1, .tunnel .done] [] rfl trivial .stopCall
    have hstopped := hstop.actAt [.tunnel .done, .idleStop 1, .tunnel .done] [] rfl trivial
      (.stop rfl rfl)
    have hagain := (hstopped.call (.start 0) trivial).actAt
      [.tunnel .done, .idleStop 1, .tunnel .done, .closing 1] [] rfl trivial
      (.start 6000 rfl (.inl rfl) (by decide))
    have hended := h _ _ hagain (.idleStop 1) _ 2 ⟨"127.0.0.1", 6000⟩
      (.at [.tunnel .done] [.tunnel .done, .closing 1, .changed, .watch 2] rfl (.stop rfl rfl)) rfl
      (fun heq => nomatch heq)
    rcases hended with heq | heq <;> cases heq

end Konnekt.Remote.Tunnel
