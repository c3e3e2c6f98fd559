import Konnekt.Correctness.Lifecycle
import Konnekt.Server.Power

/-!
# One server at a time

The check of all instances and the boot that follows it are separate steps, and
processes exit without asking. What makes them one step is the gate: nobody starts
anything while an action holds it, and whoever starts something has seen every
instance down since it took the gate.
-/

namespace Konnekt.Server

open Go Threads

variable {parseIP : String → Option String}

/-! ## The instances of the service -/

namespace Service

@[simp] theorem instanceOf_setInstance_self (id : String) (inst : Instance) (svc : Service) :
    (svc.setInstance id inst).instanceOf id = inst := by
  simp [instanceOf, setInstance]

@[simp] theorem instanceOf_setInstance_ne {id other : String} (h : other ≠ id) (inst : Instance)
    (svc : Service) : (svc.setInstance id inst).instanceOf other = svc.instanceOf other := by
  simp [instanceOf, setInstance, AList.lookup_insert_ne h]

/-- Making an instance changes none. -/
@[simp] theorem instanceOf_instanceFor (id other : String) (svc : Service) :
    (svc.instanceFor id).instanceOf other = svc.instanceOf other := by
  unfold instanceFor
  cases h : svc.instances.lookup id with
  | some inst => rfl
  | none =>
    by_cases hother : other = id
    · subst hother
      simp [instanceOf, h, setInstance]
    · exact instanceOf_setInstance_ne hother _ svc

/-- A running instance is one of those the service knows. -/
theorem mem_keys_of_isRunning {id : String} {svc : Service} (h : svc.isRunning id = true) :
    id ∈ svc.instances.keys := by
  unfold isRunning instanceOf at h
  rw [← AList.mem_keys, ← AList.lookup_isSome]
  cases hlookup : svc.instances.lookup id with
  | some inst => rfl
  | none =>
    rw [hlookup] at h
    cases h

/-- An instance that keeps running flags as they are keeps all of them. -/
theorem isRunning_setInstance {id other : String} {inst : Instance} {svc : Service}
    (h : inst.running = true → svc.isRunning id = true)
    (hother : (svc.setInstance id inst).isRunning other = true) : svc.isRunning other = true := by
  unfold isRunning at *
  by_cases heq : other = id
  · subst heq
    rw [instanceOf_setInstance_self] at hother
    exact h hother
  · rwa [instanceOf_setInstance_ne heq] at hother

end Service

/-! ## What a step of an actor can do -/

theorem running_stop (s : Instance) : s.stop.running = s.running := by
  have h := congrArg Flags.running (flags_stop 0 s)
  rw [show s.stop.running = s.stop.flags.running from rfl, h]
  simp only [Routine.flagsAfter]
  split <;> rfl

theorem running_forceStop (s : Instance) : s.forceStop.running = s.running := by
  have h := congrArg Flags.running (flags_forceStop s)
  rw [show s.forceStop.running = s.forceStop.flags.running from rfl, h]
  simp only [Routine.flagsAfter]
  split <;> rfl

/-- The phases of an action that are behind the gate. -/
def Phase.guarded : Phase → Bool
  | .enter _ | .force _ | .await _ _ .leave | .leave _ | .returned _ => false
  | _ => true

/-- An action gets behind the gate by taking it. -/
theorem Phase.Step.guarded {h h' : Bool} {p p' : Phase} {svc svc' : Service} {new : List Actor}
    (hstep : Phase.Step h p svc h' p' svc' new) (hguarded : p.guarded = true → h = true)
    (hnow : p'.guarded = true) : h' = true := by
  cases hstep with
  | enter action hfree => rfl
  | refuse action hlocked hgate => cases hnow
  | pass id hlocked => cases hnow
  | stop id grace next => exact hguarded rfl
  | await id boot next hclosed =>
    cases next with
    | leave => cases hnow
    | _ => exact hguarded rfl
  | force id => split at hnow <;> cases hnow
  | leave err => cases hnow
  | leavePast err => cases hnow
  | _ => exact hguarded rfl

/-- A process is started by a boot, and by nothing else a power action does. -/
theorem Phase.Step.isRunning {h h' : Bool} {p p' : Phase} {svc svc' : Service} {new : List Actor}
    (hstep : Phase.Step h p svc h' p' svc' new) {x : String} (hx : svc'.isRunning x = true) :
    svc.isRunning x = true ∨ ∃ prev, p = .boot x prev := by
  cases hstep with
  | stop id grace next =>
    exact .inl (Service.isRunning_setInstance (fun hs => (running_stop _).symm.trans hs) hx)
  | force id =>
    exact .inl (Service.isRunning_setInstance (fun hs => (running_forceStop _).symm.trans hs) hx)
  | boot id prev outcome =>
    by_cases heq : x = id
    · exact .inr ⟨prev, by rw [heq]⟩
    · unfold Service.isRunning at hx ⊢
      rw [Service.instanceOf_setInstance_ne heq] at hx
      exact .inl hx
  | probe id =>
    unfold Service.isRunning at hx ⊢
    exact .inl (by rwa [Service.instanceOf_instanceFor] at hx)
  | find id =>
    unfold Service.isRunning at hx ⊢
    exact .inl (by rwa [Service.instanceOf_instanceFor] at hx)
  | restore id prev outcome =>
    unfold Service.restoreCurrent at hx
    split at hx <;> exact .inl hx
  | _ => exact .inl hx

theorem Actor.Step.isRunning {a a' : Actor} {svc svc' : Service} {new : List Actor}
    (hstep : Actor.Step parseIP a svc a' svc' new) {x : String} (hx : svc'.isRunning x = true) :
    svc.isRunning x = true ∨ ∃ h prev, a = .power h (.boot x prev) := by
  cases hstep with
  | power hphase =>
    rcases hphase.isRunning hx with hrunning | ⟨prev, rfl⟩
    · exact .inl hrunning
    · exact .inr ⟨_, prev, rfl⟩
  | routine id r hcall hroutine =>
    refine .inl (Service.isRunning_setInstance (fun hup => ?_) hx)
    by_contra hdown
    have hflags := congrArg Flags.running hroutine.flags
    obtain ⟨rfl, -⟩ := start_of_up (Bool.not_eq_true _ ▸ hdown) (hflags.symm.trans hup)
    cases hcall

theorem Actor.Step.phase {a : Actor} {svc svc' : Service} {new : List Actor} {h' : Bool}
    {p' : Phase} (hstep : Actor.Step parseIP a svc (.power h' p') svc' new) :
    ∃ h p, a = .power h p ∧ Phase.Step h p svc h' p' svc' new := by
  cases hstep with
  | power hphase => exact ⟨_, _, rfl, hphase⟩

/-- What is started are routines of instances. -/
theorem Actor.Step.new {a a' : Actor} {svc svc' : Service} {new : List Actor}
    (hstep : Actor.Step parseIP a svc a' svc' new) :
    ∀ u ∈ new, ∃ id r, u = .routine id r := by
  intro u hu
  cases hstep with
  | power hphase =>
    cases hphase with
    | boot id prev outcome =>
      split at hu
      · obtain ⟨r, -, rfl⟩ := List.mem_map.1 hu
        exact ⟨id, r, rfl⟩
      · cases hu
    | _ => cases hu
  | routine id r hcall hroutine =>
    obtain ⟨r', -, rfl⟩ := List.mem_map.1 hu
    exact ⟨id, r', rfl⟩

/-- An action among the actors after a step is the one that acted or one that stood by. -/
theorem Actor.Step.mem_power {a a' : Actor} {svc svc' : Service} {new others threads : List Actor}
    (hstep : Actor.Step parseIP a svc a' svc' new) (hafter : threads.Perm (a' :: (others ++ new)))
    {h : Bool} {p : Phase} (hmem : .power h p ∈ threads) :
    .power h p = a' ∨ .power h p ∈ others := by
  rcases List.mem_cons.1 (hafter.mem_iff.1 hmem) with heq | hrest
  · exact .inl heq
  · rcases List.mem_append.1 hrest with hold | hnew
    · exact .inr hold
    · obtain ⟨id, r, hr⟩ := hstep.new _ hnew
      cases hr

/-! ## The gate -/

def Actor.holdsGate : Actor → Bool
  | .power holds _ => holds
  | .routine _ _ => false

/-- The gate is taken and left by the action that holds it. -/
theorem Phase.Step.powerMu {h h' : Bool} {p p' : Phase} {svc svc' : Service} {new : List Actor}
    (hstep : Phase.Step h p svc h' p' svc' new) (hheld : h = true → svc.powerMu = true) :
    svc.powerMu.toNat + h'.toNat = svc'.powerMu.toNat + h.toNat := by
  cases hstep with
  | enter action hfree =>
    rw [hfree]
    rfl
  | leave err =>
    rw [hheld rfl]
    rfl
  | probe id =>
    unfold Service.instanceFor
    split <;> rfl
  | find id =>
    unfold Service.instanceFor
    split <;> rfl
  | restore id prev outcome =>
    unfold Service.restoreCurrent
    split <;> rfl
  | _ => rfl

theorem balanced_gate : Balanced (powerSystem parseIP) Service.powerMu Actor.holdsGate := by
  intro a svc a' svc' new hstep hheld
  have hnew : new.countP Actor.holdsGate = 0 := by
    rw [List.countP_eq_zero]
    intro u hu
    obtain ⟨id, r, rfl⟩ := hstep.new u hu
    exact Bool.false_ne_true
  rw [List.countP_cons, List.countP_singleton, hnew]
  cases hstep with
  | @power svc svc' h h' p p' new hphase =>
    have hpower := hphase.powerMu hheld
    cases h <;> cases h' <;> simpa [Actor.holdsGate] using hpower
  | routine id r hcall hroutine => rfl

/-- What an action that looks for running instances has established: all that are running are
still to be looked at or have been found, and none are once it goes on to start. -/
def Phase.Seen (svc : Service) : Phase → Prop
  | .scan (.start _) todo found => ∀ x, svc.isRunning x = true → x ∈ todo ∨ x ∈ found
  | .find _ | .claim _ | .boot _ _ => ∀ x, svc.isRunning x = false
  | _ => True

theorem Phase.Seen.mono {svc svc' : Service} {p : Phase} (h : p.Seen svc)
    (hle : ∀ x, svc'.isRunning x = true → svc.isRunning x = true) : p.Seen svc' := by
  have hnone : (∀ x, svc.isRunning x = false) → ∀ x, svc'.isRunning x = false := fun hdown x =>
    Bool.eq_false_iff.2 fun hup => Bool.eq_false_iff.1 (hdown x) (hle x hup)
  cases p with
  | scan use todo found =>
    cases use with
    | start id => exact fun x hx => h x (hle x hx)
    | stopAll grace => trivial
  | find id => exact hnone h
  | claim id => exact hnone h
  | boot id prev => exact hnone h
  | _ => trivial

theorem Phase.seen_of_not_guarded {svc : Service} {p : Phase} (h : p.guarded = false) :
    p.Seen svc := by
  cases p <;> trivial

theorem seen_stopNext (svc : Service) (ids : List String) (grace : Int) :
    (stopNext ids grace).Seen svc := by
  cases ids <;> trivial

/-- The look-up of the running instances, step by step. -/
theorem Phase.Step.seen {h h' : Bool} {p p' : Phase} {svc svc' : Service} {new : List Actor}
    (hstep : Phase.Step h p svc h' p' svc' new) (hseen : p.Seen svc) : p'.Seen svc' := by
  have hmono := fun x => hstep.isRunning (x := x)
  cases hstep with
  | snapshot use ids hids =>
    cases use with
    | start id =>
      exact fun x hx => .inl (hids.mem_iff.2 (Service.mem_keys_of_isRunning hx))
    | stopAll grace => trivial
  | scan use id todo found =>
    cases use with
    | start start =>
      intro x hx
      rcases hseen x hx with hmem | hmem
      · rcases List.mem_cons.1 hmem with rfl | htodo
        · rw [if_pos hx]
          exact .inr (List.mem_append_right found (List.mem_singleton_self x))
        · exact .inl htodo
      · refine .inr ?_
        split
        · exact List.mem_append_left _ hmem
        · exact hmem
    | stopAll grace => trivial
  | scanned use found =>
    cases use with
    | start id =>
      change (if found = [] then Phase.find id else .leave (some .alreadyRunning)).Seen svc
      split
      · next hnone =>
        intro x
        by_contra hx
        rcases hseen x (by simpa using hx) with hmem | hmem
        · cases hmem
        · rw [hnone] at hmem
          cases hmem
      · trivial
    | stopAll grace => exact seen_stopNext svc found grace
  | find id =>
    intro x
    unfold Service.isRunning
    rw [Service.instanceOf_instanceFor]
    exact hseen x
  | claim id => exact hseen
  | stop id grace next =>
    split
    · trivial
    · cases next with
      | stopAll ids grace => exact seen_stopNext _ ids grace
      | _ => trivial
  | await id boot next hclosed =>
    cases next with
    | stopAll ids grace => exact seen_stopNext _ ids grace
    | _ => trivial
  | enter action hfree => cases action <;> trivial
  | force id => split <;> trivial
  | probe id => split <;> trivial
  | callback id restart => split <;> trivial
  | boot id prev outcome => split <;> trivial
  | _ => trivial

/-! ## Every run -/

/-- What holds of the service throughout. -/
structure PowerInv (c : Config Service Actor) : Prop where
  one : ∀ x y, c.shared.isRunning x = true → c.shared.isRunning y = true → x = y
  guarded : ∀ h p, .power h p ∈ c.threads → p.guarded = true → h = true
  seen : ∀ h p, .power h p ∈ c.threads → p.Seen c.shared

section

variable {c c' : Config Service Actor} {a : Actor} {allowed : Config Service Actor → Actor → Prop}
  {trace : Trace Service Actor}

/-- Whoever holds the gate is the only one. -/
def Gated (c : Config Service Actor) : Prop :=
  holders Actor.holdsGate c = c.shared.powerMu.toNat

theorem gated {svc : Service}
    (hrun : Run (powerSystem parseIP) allowed ⟨svc, []⟩ trace c) (hfree : svc.powerMu = false) :
    Gated c := by
  refine hrun.holders_eq balanced_gate ?_ (by simp [holders, hfree])
  rintro a ⟨action, rfl⟩
  rfl

theorem Gated.call (h : Gated c) (action : PowerAction) :
    Gated ⟨c.shared, c.threads ++ [.power false (.enter action)]⟩ := by
  unfold Gated holders at *
  rw [List.countP_append, h]
  rfl

/-- The threads beside one that is behind the gate are in front of it. -/
theorem PowerInv.not_guarded {h : Bool} {p : Phase} {others : List Actor} (hinv : PowerInv c)
    (hgated : Gated c) (hperm : c.threads.Perm (.power h p :: others)) (hp : p.guarded = true)
    {h' : Bool} {p' : Phase} (hmem : .power h' p' ∈ others) : p'.guarded = false := by
  have hholds : h = true := hinv.guarded h p (hperm.mem_iff.2 List.mem_cons_self) hp
  have hother : h' = false := not_holds_of_holds hgated hperm hholds hmem
  rw [Bool.eq_false_iff]
  intro hguarded
  have hthere := hinv.guarded h' p' (hperm.mem_iff.2 (List.mem_cons_of_mem _ hmem)) hguarded
  rw [hother] at hthere
  cases hthere

theorem PowerInv.act (hinv : PowerInv c) (hgated : Gated c)
    (hact : Acts (powerSystem parseIP) c a c') : PowerInv c' := by
  have hacting := hact.mem
  obtain ⟨a', new, others, hstep, hbefore, hafter⟩ := hact.exists_others
  have hothers : ∀ u ∈ others, u ∈ c.threads := fun u hu =>
    hbefore.mem_iff.2 (List.mem_cons_of_mem a hu)
  have hcases : ∀ h' p', .power h' p' ∈ c'.threads → .power h' p' ∈ others ∨
      ∃ h p, a = .power h p ∧ Phase.Step h p c.shared h' p' c'.shared new := by
    intro h' p' hmem
    rcases hstep.mem_power hafter hmem with rfl | hold
    · exact .inr hstep.phase
    · exact .inl hold
  have hguarded : ∀ h' p', .power h' p' ∈ c'.threads → p'.guarded = true → h' = true := by
    intro h' p' hmem
    rcases hcases h' p' hmem with hold | ⟨h, p, rfl, hphase⟩
    · exact hinv.guarded h' p' (hothers _ hold)
    · exact hphase.guarded (hinv.guarded h p hacting)
  by_cases hboot : ∃ h id prev, a = .power h (.boot id prev)
  · obtain ⟨h, id, prev, rfl⟩ := hboot
    have hdown := hinv.seen h _ hacting
    have honly : ∀ x, c'.shared.isRunning x = true → x = id := by
      intro x hx
      rcases hstep.isRunning hx with hup | ⟨h', prev', heq⟩
      · rw [hdown x] at hup
        cases hup
      · cases heq
        rfl
    refine ⟨fun x y hx hy => (honly x hx).trans (honly y hy).symm, hguarded, ?_⟩
    intro h' p' hmem
    rcases hcases h' p' hmem with hold | ⟨h, p, heq, hphase⟩
    · exact Phase.seen_of_not_guarded (hinv.not_guarded hgated hbefore rfl hold)
    · exact hphase.seen (hinv.seen h p (heq ▸ hacting))
  · have hmono : ∀ x, c'.shared.isRunning x = true → c.shared.isRunning x = true := by
      intro x hx
      refine (hstep.isRunning hx).resolve_right ?_
      rintro ⟨h, prev, rfl⟩
      exact hboot ⟨h, x, prev, rfl⟩
    refine ⟨fun x y hx hy => hinv.one x y (hmono x hx) (hmono y hy), hguarded, ?_⟩
    intro h' p' hmem
    rcases hcases h' p' hmem with hold | ⟨h, p, rfl, hphase⟩
    · exact (hinv.seen h' p' (hothers _ hold)).mono hmono
    · exact hphase.seen (hinv.seen h p hacting)

theorem PowerInv.call (hinv : PowerInv c) (action : PowerAction) :
    PowerInv ⟨c.shared, c.threads ++ [.power false (.enter action)]⟩ := by
  have hcases : ∀ h p, Actor.power h p ∈ c.threads ++ [.power false (.enter action)] →
      .power h p ∈ c.threads ∨ p = .enter action := by
    intro h p hmem
    rcases List.mem_append.1 hmem with hold | hnew
    · exact .inl hold
    · cases List.mem_singleton.1 hnew
      exact .inr rfl
  refine ⟨hinv.one, fun h p hmem hguarded => ?_, fun h p hmem => ?_⟩
  · rcases hcases h p hmem with hold | rfl
    · exact hinv.guarded h p hold hguarded
    · cases hguarded
  · rcases hcases h p hmem with hold | rfl
    · exact hinv.seen h p hold
    · trivial

/-- The service before any power action. -/
def servicesDown : Config Service Actor := ⟨newServerService, []⟩

theorem isRunning_newServerService (x : String) : newServerService.isRunning x = false := by
  unfold Service.isRunning Service.instanceOf newServerService
  by_cases hx : x = ""
  · rw [hx, AList.lookup_insert]
    rfl
  · rw [AList.lookup_insert_ne hx]
    rfl

theorem powerInv_servicesDown : PowerInv servicesDown where
  one x y hx := by
    rw [show servicesDown.shared.isRunning x = false from isRunning_newServerService x] at hx
    cases hx
  guarded h p hmem := nomatch hmem
  seen h p hmem := nomatch hmem

theorem powerInv (hrun : Run (powerSystem parseIP) allowed servicesDown trace c) :
    PowerInv c ∧ Gated c := by
  refine ⟨?_, gated hrun rfl⟩
  induction hrun with
  | nil => exact powerInv_servicesDown
  | call hrun a ha ih =>
    obtain ⟨action, rfl⟩ := ha
    exact ih.call action
  | act hrun _ hact ih => exact ih.act (gated hrun rfl) hact

/-! ## Runs in which an action keeps the gate -/

/-- The gate is not given back. -/
def KeepsGate (_ : Config Service Actor) (a : Actor) : Prop := ∀ err, a ≠ .power true (.leave err)

private theorem Phase.Step.keeps {h' : Bool} {p p' : Phase} {svc svc' : Service}
    {new : List Actor} (hstep : Phase.Step true p svc h' p' svc' new)
    (hkeeps : ∀ err, p ≠ .leave err) : h' = true := by
  cases hstep with
  | leave err => exact absurd rfl (hkeeps err)
  | _ => rfl

private theorem Phase.Step.not_taken {p p' : Phase} {svc svc' : Service} {new : List Actor}
    (hstep : Phase.Step false p svc true p' svc' new) : svc.powerMu = false := by
  cases hstep with
  | enter action hfree => exact hfree

/-- What the phase of a holder says of the service, if it is kept by the holder's own steps and by
those of actors in front of the gate. -/
structure HolderRule (parseIP : String → Option String) (K : Service → Phase → Prop) : Prop where
  own : ∀ p p' svc svc' new, K svc p → (∀ err, p ≠ .leave err) →
    Phase.Step true p svc true p' svc' new → K svc' p'
  other : ∀ a a' svc svc' new p, (∀ h q, a = .power h q → q.guarded = false) → K svc p →
    Actor.Step parseIP a svc a' svc' new → K svc' p

/-- The gate is held, and its holder is in a phase that says so. -/
structure HolderInv (K : Service → Phase → Prop) (c : Config Service Actor) : Prop where
  inv : PowerInv c
  gated : Gated c
  held : ∃ p, .power true p ∈ c.threads
  holder : ∀ p, .power true p ∈ c.threads → K c.shared p

theorem HolderInv.act {K : Service → Phase → Prop} (h : HolderInv K c) (hK : HolderRule parseIP K)
    (hkeeps : KeepsGate c a) (hact : Acts (powerSystem parseIP) c a c') : HolderInv K c' := by
  have hacting := hact.mem
  suffices hnow : (∃ p, .power true p ∈ c'.threads) ∧
      ∀ p, .power true p ∈ c'.threads → K c'.shared p from
    ⟨h.inv.act h.gated hact, hact.holders_eq balanced_gate h.gated, hnow.1, hnow.2⟩
  obtain ⟨a', new, others, hstep, hbefore, hafter⟩ := hact.exists_others
  have hothers : ∀ u ∈ others, u ∈ c.threads := fun u hu =>
    hbefore.mem_iff.2 (List.mem_cons_of_mem a hu)
  cases hholds : a.holdsGate with
  | true =>
    obtain ⟨p, rfl⟩ : ∃ p, a = .power true p := by
      cases a with
      | power holds p => exact ⟨p, by rw [show holds = true from hholds]⟩
      | routine id r => cases hholds
    have hnext : ∃ p', a' = .power true p' ∧ K c'.shared p' := by
      generalize c'.shared = svc' at hstep ⊢
      cases hstep with
      | @power _ _ _ h' _ p' _ hphase =>
        have hp : ∀ err, p ≠ .leave err := fun err heq => hkeeps err (by rw [heq])
        obtain rfl := hphase.keeps hp
        exact ⟨p', rfl, hK.own p p' _ _ new (h.holder p hacting) hp hphase⟩
    obtain ⟨p', rfl, hKp'⟩ := hnext
    refine ⟨⟨p', hafter.mem_iff.2 List.mem_cons_self⟩, fun q hq => ?_⟩
    rcases hstep.mem_power hafter hq with heq | hold
    · cases heq
      exact hKp'
    · cases not_holds_of_holds h.gated hbefore rfl hold
  | false =>
    obtain ⟨p, hp⟩ := h.held
    have hlocked : c.shared.powerMu = true := locked_of_holds h.gated hp rfl
    have hstays : .power true p ∈ others := by
      rcases List.mem_cons.1 (hbefore.mem_iff.1 hp) with rfl | hold
      · cases hholds
      · exact hold
    have hfront : ∀ h q, a = .power h q → q.guarded = false := by
      rintro h' q rfl
      rw [Bool.eq_false_iff]
      intro hguarded
      rw [show h' = false from hholds] at hacting
      cases h.inv.guarded false q hacting hguarded
    refine ⟨⟨p, hafter.mem_iff.2 (List.mem_cons_of_mem _ (List.mem_append_left _ hstays))⟩, ?_⟩
    intro q hq
    rcases hstep.mem_power hafter hq with rfl | hold
    · obtain ⟨h', p', rfl, hphase⟩ := hstep.phase
      rw [show h' = false from hholds] at hphase
      rw [hphase.not_taken] at hlocked
      cases hlocked
    · exact hK.other a a' c.shared c'.shared new q hfront (h.holder q (hothers _ hold)) hstep

/-- As long as an action keeps the gate, its phase says what its steps keep. -/
theorem holder_kept {K : Service → Phase → Prop} {p₀ : Phase} (hK : HolderRule parseIP K)
    (hrun : Run (powerSystem parseIP) KeepsGate c trace c') (hinv : PowerInv c) (hgated : Gated c)
    (hmem : .power true p₀ ∈ c.threads) (hinit : K c.shared p₀) : HolderInv K c' := by
  induction hrun with
  | nil =>
    refine ⟨hinv, hgated, ⟨p₀, hmem⟩, fun p hp => ?_⟩
    cases holder_unique hgated hmem rfl hp rfl
    exact hinit
  | call hrun a ha ih =>
    obtain ⟨action, rfl⟩ := ha
    obtain ⟨p, hp⟩ := ih.held
    refine ⟨ih.inv.call action, ?_, ⟨p, List.mem_append_left _ hp⟩, fun p hp => ?_⟩
    · simpa [Gated, holders, Actor.holdsGate] using ih.gated
    · rcases List.mem_append.1 hp with hold | hnew
      · exact ih.holder p hold
      · cases List.mem_singleton.1 hnew
  | act hrun hkeeps hact ih => exact ih.act hK hkeeps hact

/-! ## A start that fails -/

/-- An action in front of the gate leaves `current` alone. -/
theorem Actor.Step.current {a' : Actor} {svc svc' : Service} {new : List Actor}
    (hstep : Actor.Step parseIP a svc a' svc' new)
    (hfront : ∀ h q, a = .power h q → q.guarded = false) : svc'.current = svc.current := by
  cases hstep with
  | power hphase =>
    have hq := hfront _ _ rfl
    cases hphase <;> first | rfl | cases hq
  | routine id r hcall hroutine => rfl

/-- What `current` is during a start, when it was `cur` before. -/
def Phase.Remembers (cur : String) (svc : Service) : Phase → Prop
  | .snapshot (.start _) | .scan (.start _) _ _ | .find _ | .claim _ | .leave (some _) =>
    svc.current = cur
  | .boot id prev | .restore id prev _ => prev = cur ∧ svc.current = id
  | .leave none => True
  | _ => False

theorem holderRule_remembers (cur : String) :
    HolderRule parseIP (Phase.Remembers cur) where
  own p p' svc svc' new h hp hstep := by
    cases hstep with
    | snapshot use ids hids =>
      cases use with
      | start id => exact h
      | stopAll grace => exact h.elim
    | scan use id todo found =>
      cases use with
      | start start => exact h
      | stopAll grace => exact h.elim
    | scanned use found =>
      cases use with
      | start id =>
        change (if found = [] then Phase.find id else .leave (some .alreadyRunning)).Remembers
          cur svc
        split <;> exact h
      | stopAll grace => exact h.elim
    | find id =>
      change (svc.instanceFor id).current = cur
      unfold Service.instanceFor
      split <;> exact h
    | claim id => exact ⟨h, rfl⟩
    | boot id prev outcome =>
      split
      · trivial
      · exact h
    | restore id prev outcome =>
      change (svc.restoreCurrent id prev).current = cur
      rw [Service.restoreCurrent, if_pos h.2]
      exact h.1
    | _ => exact h.elim
  other a a' svc svc' new p hfront h hstep := by
    have hcurrent := hstep.current hfront
    cases p <;> simp only [Phase.Remembers, hcurrent] at h ⊢ <;> exact h

/-- A start that fails leaves `current` pointing at the instance it pointed at before. -/
theorem current_of_failed_start {id : String} {err : PowerError} {trace' : Trace Service Actor}
    (hrun : Run (powerSystem parseIP) allowed servicesDown trace c)
    (hstart : .power true (.snapshot (.start id)) ∈ c.threads)
    (hkept : Run (powerSystem parseIP) KeepsGate c trace' c')
    (hfailed : .power true (.leave (some err)) ∈ c'.threads) :
    c'.shared.current = c.shared.current := by
  obtain ⟨hinv, hgated⟩ := powerInv hrun
  exact (holder_kept (holderRule_remembers c.shared.current) hkept hinv hgated hstart rfl).holder
    _ hfailed

/-! ## A start that follows a stop -/

/-- The phases of `WhileStopped` after its stop. -/
def Phase.StopsThenStarts (id : String) (_ : Service) : Phase → Prop
  | .await _ _ (.callback x) | .callback x true | .snapshot (.start x) | .scan (.start x) _ _
  | .find x | .claim x | .boot x _ | .restore x _ _ => x = id
  | .leave _ => True
  | _ => False

theorem holderRule_stopsThenStarts (id : String) :
    HolderRule parseIP (Phase.StopsThenStarts id) where
  own p p' svc svc' new h hp hstep := by
    cases hstep with
    | await x boot next hclosed =>
      cases next with
      | callback y => exact h
      | _ => exact h.elim
    | callback x restart =>
      cases restart with
      | true => exact h
      | false => exact h.elim
    | snapshot use ids hids =>
      cases use with
      | start x => exact h
      | stopAll grace => exact h.elim
    | scan use x todo found =>
      cases use with
      | start start => exact h
      | stopAll grace => exact h.elim
    | scanned use found =>
      cases use with
      | start x =>
        change (if found = [] then Phase.find x else .leave (some .alreadyRunning)).StopsThenStarts
          id svc
        split
        · exact h
        · trivial
      | stopAll grace => exact h.elim
    | find x => exact h
    | claim x => exact h
    | boot x prev outcome =>
      split
      · trivial
      · exact h
    | restore x prev outcome => trivial
    | _ => exact h.elim
  other a a' svc svc' new p hfront h hstep := h

/-- After the stop of a `WhileStopped`, as long as it keeps the gate, the only start there is is
its own. -/
theorem own_start_after_stop {id : String} {boot : Nat} {trace' : Trace Service Actor}
    (hrun : Run (powerSystem parseIP) allowed servicesDown trace c)
    (hstopped : .power true (.await id boot (.callback id)) ∈ c.threads)
    (hkept : Run (powerSystem parseIP) KeepsGate c trace' c') :
    ∀ e ∈ trace', ∀ h x prev, e.2 = .power h (.boot x prev) → h = true ∧ x = id := by
  obtain ⟨hinv, hgated⟩ := powerInv hrun
  induction hkept with
  | nil => exact fun e he => nomatch he
  | call hkept a ha ih => exact ih
  | act hkept hkeeps hact ih =>
    intro e he h x prev hboot
    rcases List.mem_cons.1 he with rfl | hold
    · have hinv' := holder_kept (holderRule_stopsThenStarts id) hkept hinv hgated hstopped rfl
      dsimp only at hboot
      subst hboot
      have hholds : h = true := hinv'.inv.guarded h _ hact.mem rfl
      subst hholds
      exact ⟨rfl, hinv'.holder _ hact.mem⟩
    · exact ih e hold h x prev hboot

/-! ## The instance that is running -/

/-- Where `current` points during a boot, and that nothing runs after one that failed. -/
def Phase.Aimed (svc : Service) : Phase → Prop
  | .boot id _ => svc.current = id
  | .restore _ _ _ => ∀ x, svc.isRunning x = false
  | _ => True

theorem Phase.Aimed.mono {svc svc' : Service} {p : Phase} (h : p.Aimed svc)
    (hcurrent : svc'.current = svc.current)
    (hle : ∀ x, svc'.isRunning x = true → svc.isRunning x = true) : p.Aimed svc' := by
  cases p with
  | boot id prev => exact hcurrent.trans h
  | restore id prev outcome =>
    exact fun x => Bool.eq_false_iff.2 fun hup => Bool.eq_false_iff.1 (h x) (hle x hup)
  | _ => trivial

theorem Phase.aimed_of_not_guarded {svc : Service} {p : Phase} (h : p.guarded = false) :
    p.Aimed svc := by
  cases p <;> trivial

/-- An instance that does not boot is not running afterwards unless it was. -/
theorem isRunning_of_not_boots {id x : String} {svc : Service} {outcome : StartOutcome}
    (hboots : (svc.instanceOf id).boots outcome = false) (hdown : ∀ x, svc.isRunning x = false) :
    (svc.setInstance id ((svc.instanceOf id).start outcome)).isRunning x = false := by
  rw [Bool.eq_false_iff]
  intro hup
  have hbefore : svc.isRunning x = true := by
    refine Service.isRunning_setInstance (fun hrunning => ?_) hup
    rw [Instance.boots, show (svc.instanceOf id).running = false from hdown id] at hboots
    cases outcome with
    | boots => cases hboots
    | _ =>
      rw [Instance.start, show (svc.instanceOf id).running = false from hdown id] at hrunning
      exact absurd hrunning (by simp [show (svc.instanceOf id).running = false from hdown id])
  rw [hdown x] at hbefore
  cases hbefore

/-- What a step of an action does to `current`. -/
theorem Phase.Step.aimed {h h' : Bool} {p p' : Phase} {svc svc' : Service} {new : List Actor}
    (hstep : Phase.Step h p svc h' p' svc' new) (hseen : p.Seen svc) (haimed : p.Aimed svc) :
    p'.Aimed svc' := by
  cases hstep with
  | claim id => rfl
  | boot id prev outcome =>
    split
    · trivial
    · next hboots => exact fun x => isRunning_of_not_boots (Bool.not_eq_true _ ▸ hboots) hseen
  | stop id grace next =>
    split
    · trivial
    · cases next with
      | stopAll ids grace => cases ids <;> trivial
      | _ => trivial
  | await id boot next hclosed =>
    cases next with
    | stopAll ids grace => cases ids <;> trivial
    | _ => trivial
  | scanned use found =>
    cases use with
    | start id =>
      change (if found = [] then Phase.find id else .leave (some .alreadyRunning)).Aimed svc
      split <;> trivial
    | stopAll grace => cases found <;> trivial
  | enter action hfree => cases action <;> trivial
  | force id => split <;> trivial
  | probe id => split <;> trivial
  | callback id restart => split <;> trivial
  | _ => trivial

/-- A running server is the one `current` points to. -/
structure CurrentInv (c : Config Service Actor) : Prop where
  current : ∀ x, c.shared.isRunning x = true → c.shared.current = x
  aimed : ∀ h p, .power h p ∈ c.threads → p.Aimed c.shared

/-- Only the claim of a start and what undoes it move `current`, and a boot starts what `current`
points to. -/
theorem Actor.Step.current_cases {a' : Actor} {svc svc' : Service} {new : List Actor}
    (hstep : Actor.Step parseIP a svc a' svc' new) :
    (svc'.current = svc.current ∧ ∀ x, svc'.isRunning x = true → svc.isRunning x = true) ∨
      ∃ h p, a = .power h p ∧ p.guarded = true ∧
        ((∃ id, p = .claim id) ∨ (∃ id prev outcome, p = .restore id prev outcome) ∨
          ∃ id prev, p = .boot id prev ∧ svc'.current = svc.current) := by
  have hup := fun x => hstep.isRunning (x := x)
  cases hstep with
  | routine id r hcall hroutine =>
    refine .inl ⟨rfl, fun x hx => (hup x hx).resolve_right ?_⟩
    rintro ⟨h, prev, heq⟩
    cases heq
  | @power svc svc' h h' p p' new hphase =>
    by_cases hboot : ∃ id prev, p = .boot id prev
    · obtain ⟨id, prev, rfl⟩ := hboot
      refine .inr ⟨h, _, rfl, rfl, .inr (.inr ⟨id, prev, rfl, ?_⟩)⟩
      cases hphase
      rfl
    · have hmono : ∀ x, svc'.isRunning x = true → svc.isRunning x = true := by
        refine fun x hx => (hup x hx).resolve_right ?_
        rintro ⟨h, prev, heq⟩
        cases heq
        exact hboot ⟨x, prev, rfl⟩
      cases hphase with
      | claim id => exact .inr ⟨h, _, rfl, rfl, .inl ⟨id, rfl⟩⟩
      | restore id prev outcome => exact .inr ⟨h, _, rfl, rfl, .inr (.inl ⟨id, prev, _, rfl⟩)⟩
      | boot id prev outcome => exact absurd ⟨id, prev, rfl⟩ hboot
      | probe id =>
        refine .inl ⟨?_, hmono⟩
        unfold Service.instanceFor
        split <;> rfl
      | find id =>
        refine .inl ⟨?_, hmono⟩
        unfold Service.instanceFor
        split <;> rfl
      | _ => exact .inl ⟨rfl, hmono⟩

theorem CurrentInv.act (h : CurrentInv c) (hinv : PowerInv c) (hgated : Gated c)
    (hact : Acts (powerSystem parseIP) c a c') : CurrentInv c' := by
  have hacting := hact.mem
  obtain ⟨a', new, others, hstep, hbefore, hafter⟩ := hact.exists_others
  have hmem : ∀ h' p', .power h' p' ∈ c'.threads →
      .power h' p' ∈ others ∨ p'.Aimed c'.shared := by
    intro h' p' hthere
    rcases hstep.mem_power hafter hthere with rfl | hold
    · obtain ⟨h₀, p, rfl, hphase⟩ := hstep.phase
      exact .inr (hphase.aimed (hinv.seen h₀ p hacting) (h.aimed h₀ p hacting))
    · exact .inl hold
  have hothers : ∀ u ∈ others, u ∈ c.threads := fun u hu =>
    hbefore.mem_iff.2 (List.mem_cons_of_mem a hu)
  rcases hstep.current_cases with ⟨hcurrent, hmono⟩ | ⟨h₀, p, rfl, hguarded, hcases⟩
  · refine ⟨fun x hx => hcurrent.trans (h.current x (hmono x hx)), fun h' p' hthere => ?_⟩
    rcases hmem h' p' hthere with hold | haimed
    · exact (h.aimed h' p' (hothers _ hold)).mono hcurrent hmono
    · exact haimed
  · refine ⟨fun x hx => ?_, fun h' p' hthere => ?_⟩
    · -- Nothing was running, so that what runs now has just been booted.
      have hdown : ∀ x, c.shared.isRunning x = false := by
        rcases hcases with ⟨id, rfl⟩ | ⟨id, prev, outcome, rfl⟩ | ⟨id, prev, rfl, -⟩
        · exact hinv.seen _ _ hacting
        · exact h.aimed _ _ hacting
        · exact hinv.seen _ _ hacting
      rcases hstep.isRunning hx with hup | ⟨h', prev, heq⟩
      · rw [hdown x] at hup
        cases hup
      · cases heq
        rcases hcases with ⟨id, heq⟩ | ⟨id, prev, outcome, heq⟩ | ⟨id, prev, heq, hcurrent⟩
        · cases heq
        · cases heq
        · cases heq
          exact hcurrent.trans (h.aimed _ _ hacting)
    · rcases hmem h' p' hthere with hold | haimed
      · exact Phase.aimed_of_not_guarded (hinv.not_guarded hgated hbefore hguarded hold)
      · exact haimed

theorem CurrentInv.call (h : CurrentInv c) (action : PowerAction) :
    CurrentInv ⟨c.shared, c.threads ++ [.power false (.enter action)]⟩ := by
  refine ⟨h.current, fun h' p hmem => ?_⟩
  rcases List.mem_append.1 hmem with hold | hnew
  · exact h.aimed h' p hold
  · cases List.mem_singleton.1 hnew
    trivial

theorem currentInv_servicesDown : CurrentInv servicesDown where
  current x hx := by
    rw [show servicesDown.shared.isRunning x = false from isRunning_newServerService x] at hx
    cases hx
  aimed h p hmem := nomatch hmem

/-! ## Safety -/

/-- What the gate guarantees in a state that a run has reached. -/
structure PowerSafe (parseIP : String → Option String) (c : Config Service Actor) : Prop where
  /-- At most one instance is running. -/
  one : ∀ x y, c.shared.isRunning x = true → c.shared.isRunning y = true → x = y
  /-- No process is started while a callback runs. -/
  callback : ∀ h id restart, .power h (.callback id restart) ∈ c.threads → ∀ a c',
    Acts (powerSystem parseIP) c a c' →
      ∀ x, c'.shared.isRunning x = true → c.shared.isRunning x = true
  /-- The first start after the stop of a `WhileStopped` is its own. -/
  ownStart : ∀ id boot, .power true (.await id boot (.callback id)) ∈ c.threads → ∀ trace c',
    Run (powerSystem parseIP) KeepsGate c trace c' →
      ∀ e ∈ trace, ∀ h x prev, e.2 = .power h (.boot x prev) → h = true ∧ x = id
  /-- A start that fails leaves `current` as it was, whether it is refused at the gate or fails
  behind it. -/
  refused : ∀ a c', Acts (powerSystem parseIP) c a c' →
    (∀ h q, a = .power h q → q.guarded = false) → c'.shared.current = c.shared.current
  failedStart : ∀ id, .power true (.snapshot (.start id)) ∈ c.threads → ∀ trace c' err,
    Run (powerSystem parseIP) KeepsGate c trace c' →
      .power true (.leave (some err)) ∈ c'.threads → c'.shared.current = c.shared.current

/-- The gate is safe in every interleaving of power actions, forced stops and exits. -/
theorem powerSafe (hrun : Run (powerSystem parseIP) Unrestricted servicesDown trace c) :
    PowerSafe parseIP c where
  one := (powerInv hrun).1.one
  callback h id restart hmem a c' hact x hx := by
    obtain ⟨hinv, hgated⟩ := powerInv hrun
    obtain ⟨a', new, others, hstep, hbefore, hafter⟩ := hact.exists_others
    refine (hstep.isRunning hx).resolve_right ?_
    rintro ⟨h', prev, rfl⟩
    rcases List.mem_cons.1 (hbefore.mem_iff.1 hmem) with heq | hother
    · cases heq
    · cases hinv.not_guarded hgated hbefore rfl hother
  ownStart id boot hmem trace' c' hkept := own_start_after_stop hrun hmem hkept
  refused a c' hact hfront := by
    obtain ⟨a', new, hstep, -⟩ := hact.exists_step
    exact hstep.current hfront
  failedStart id hmem trace' c' err hkept hfailed := current_of_failed_start hrun hmem hkept hfailed

end

/-- A first server is started. -/
theorem powerSafe_started : ∃ trace c,
    Run (powerSystem fun _ => none) Unrestricted servicesDown trace c ∧
      c.shared.isRunning "s1" = true ∧ PowerSafe (fun _ => none) c := by
  have hbegin : Run (powerSystem fun _ => none) Unrestricted servicesDown [] _ := .nil
  have henter := (hbegin.call (.power false (.enter (.start "s1"))) ⟨_, rfl⟩).actAt [] [] rfl
    trivial (.power (.enter _ rfl))
  have hsnapshot := henter.actAt [] [] rfl trivial (.power (.snapshot (.start "s1") [""] (.refl _)))
  have hscan := hsnapshot.actAt [] [] rfl trivial (.power (.scan (.start "s1") "" [] []))
  have hscanned := hscan.actAt [] [] rfl trivial (.power (.scanned (.start "s1") []))
  have hfind := hscanned.actAt [] [] rfl trivial (.power (.find "s1"))
  have hclaim := hfind.actAt [] [] rfl trivial (.power (.claim "s1"))
  have hboot := hclaim.actAt [] [] rfl trivial (.power (.boot "s1" "" .boots))
  exact ⟨_, _, hboot, rfl, powerSafe hboot⟩

end Konnekt.Server
