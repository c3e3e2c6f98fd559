import Konnekt.Server.Lifecycle

/-!
# The states of an instance

An instance is offline exactly while no process of it is running, and its state
moves along the lifecycle: that holds through every interleaving of its routines
but for one, where the exit deadline of a boot acts after the exit of that boot
has been recorded.
-/

namespace Konnekt.Server

open Go Threads

variable {parseIP : String → Option String}

/-! ## What the routines decide on -/

/-- The lifecycle of an instance and the marks of its boot. -/
structure Flags where
  running : Bool
  exited : Nat
  state : ServerState
  expectedStop : Bool
  crashed : Bool
  deadlineArmed : Bool
  deriving DecidableEq, Repr

def Instance.flags (s : Instance) : Flags :=
  ⟨s.running, s.exited, s.state, s.expectedStop, s.crashed, s.deadlineArmed⟩

/-- Output says that the server is going down. -/
def ServerState.goesDown : ServerState → ServerState
  | .starting | .running => .stopping
  | st => st

/-- The start is over. -/
def ServerState.comesUp : ServerState → ServerState
  | .starting => .running
  | st => st

theorem ServerState.goesDown_of_up (st : ServerState) (h : st = .starting ∨ st = .running) :
    st.goesDown = .stopping := by
  rcases h with rfl | rfl <;> rfl

theorem ServerState.goesDown_of_not_up (st : ServerState) (h : ¬ (st = .starting ∨ st = .running)) :
    st.goesDown = st := by
  cases st <;> first | rfl | exact absurd (by decide) h

theorem ServerState.comesUp_of_not_starting (st : ServerState) (h : ¬ st = .starting) :
    st.comesUp = st := by
  cases st <;> first | rfl | exact absurd rfl h

theorem Instance.flags_state_self (s : Instance) : { s.flags with state := s.state } = s.flags := rfl

theorem flags_setStateLocked (next : ServerState) (timedOut : Bool) (s : Instance) :
    (s.setStateLocked next timedOut).flags = { s.flags with state := next } := by
  simp [Instance.flags]

theorem flags_stopFromUp (s : Instance) :
    s.stopFromUp.flags = { s.flags with state := s.state.goesDown } := by
  unfold Instance.stopFromUp
  split
  · next hup =>
    rw [flags_setStateLocked, s.state.goesDown_of_up hup]
  · next hup => rw [s.state.goesDown_of_not_up hup, s.flags_state_self]

theorem flags_comesUp (timedOut : Bool) (s : Instance) :
    (if s.state = .starting then s.enterRunningLocked timedOut else s).flags =
      { s.flags with state := s.state.comesUp } := by
  split
  · next hstarting =>
    rw [Instance.enterRunningLocked, flags_setStateLocked, hstarting]
    rfl
  · next hstarting => rw [s.state.comesUp_of_not_starting hstarting, s.flags_state_self]

theorem flags_recordPlayerField (name : String) (set : PlayerSession → PlayerSession)
    (s : Instance) : (s.recordPlayerField name set).flags = s.flags := by
  unfold Instance.recordPlayerField
  split <;> rfl

/-- What a section of the read loop does to the flags. -/
def Section.flagsAfter (f : Flags) : Section → Flags
  | .serverStop => { f with expectedStop := true, state := f.state.goesDown }
  | .serverCrash => { f with crashed := true, state := f.state.goesDown }
  | .armExitDeadline =>
    { f with deadlineArmed := f.deadlineArmed || (f.running && f.state == .stopping) }
  | .serverReady => { f with state := f.state.comesUp }
  | _ => f

theorem Section.run_flags (sec : Section) (now : Int) (s : Instance) :
    (sec.run now s).1.flags = sec.flagsAfter s.flags := by
  cases sec with
  | serverStop => exact flags_stopFromUp _
  | serverCrash => exact flags_stopFromUp _
  | serverReady => exact flags_comesUp false s
  | playerUUID name uuid => exact flags_recordPlayerField name _ s
  | playerIP name ip => exact flags_recordPlayerField name _ s
  | armExitDeadline =>
    change (if s.armable then { s with deadlineArmed := true } else s).flags = _
    split
    · next harmable =>
      simp only [Instance.armable, Bool.and_eq_true] at harmable
      simp [Section.flagsAfter, Instance.flags, harmable]
    · next harmable =>
      simp only [Instance.armable, Bool.and_eq_true, not_and, Bool.not_eq_true'] at harmable
      have harmed : (s.deadlineArmed || (s.running && s.state == .stopping)) = s.deadlineArmed := by
        cases harmed : s.deadlineArmed with
        | true => rfl
        | false => simpa [harmed] using harmable
      simp only [Section.flagsAfter, Instance.flags, harmed]
  | _ => rfl

/-- What a step of a routine does to the flags. -/
def Routine.flagsAfter (f : Flags) : Routine → Flags
  | .start outcome =>
    if f.running then f
    else match outcome with
      | .launchFails => f
      | .stdinFails | .spawnFails => { f with exited := f.exited + 1 }
      | .boots => ⟨true, f.exited + 1, .starting, false, false, false⟩
  | .stop _ | .forceStop =>
    if f.running then { f with expectedStop := true, state := .stopping } else f
  | .streamOutput _ (sec :: _) => sec.flagsAfter f
  | .waitForExit _ (.polled _) => { f with running := false, state := .offline }
  | .watchStarting _ => { f with state := f.state.comesUp }
  | .watchExitDeadline boot =>
    if f.exited = boot then { f with expectedStop := true, state := .stopping } else f
  | _ => f

theorem flags_start (outcome : StartOutcome) (s : Instance) :
    (s.start outcome).flags = Routine.flagsAfter s.flags (.start outcome) := by
  unfold Instance.start
  simp only [Routine.flagsAfter]
  cases hrunning : s.running with
  | true => simp [Instance.flags, hrunning]
  | false =>
    cases outcome with
    | _ => simp [Instance.flags, hrunning]

theorem flags_stop (grace : Int) (s : Instance) :
    s.stop.flags = Routine.flagsAfter s.flags (.stop grace) := by
  unfold Instance.stop
  simp only [Routine.flagsAfter]
  cases hrunning : s.running with
  | true => simp [Instance.flags, Instance.stopTPSPoll, hrunning]
  | false => simp [Instance.flags, hrunning]

theorem flags_forceStop (s : Instance) :
    s.forceStop.flags = Routine.flagsAfter s.flags .forceStop := by
  unfold Instance.forceStop
  simp only [Routine.flagsAfter]
  cases hrunning : s.running with
  | true => simp [Instance.flags, hrunning]
  | false => simp [Instance.flags, hrunning]

theorem flags_endStop (boot : Nat) (s : Instance) :
    (s.endStop boot).flags = Routine.flagsAfter s.flags (.watchExitDeadline boot) := by
  unfold Instance.endStop
  simp only [Routine.flagsAfter]
  split
  · next hcurrent => simp [Instance.flags, hcurrent]
  · next hcurrent => simp [Instance.flags, hcurrent]

theorem Routine.Step.flags {r r' : Routine} {s s' : Instance} {new : List Routine}
    (h : Routine.Step parseIP r s r' s' new) : s'.flags = r.flagsAfter s.flags := by
  cases h with
  | start outcome => exact flags_start outcome s
  | stop grace => exact flags_stop grace s
  | forceStop => exact flags_forceStop s
  | output boot sec todo now => exact sec.run_flags now s
  | record boot code => simp [Instance.recordExit, Routine.flagsAfter, Instance.flags]
  | promote boot => exact flags_comesUp true s
  | endStop boot => exact flags_endStop boot s
  | narrateExit boot stop crashed now => cases exitNarration crashed stop <;> rfl
  | _ => rfl

/-! ## The moves of the lifecycle -/

/-- The state an instance may take, by the routine that acts. -/
inductive Moves : Routine → Flags → ServerState → Prop
  | stays {r : Routine} {f : Flags} {st : ServerState} (h : st = f.state) : Moves r f st
  | starts {f : Flags} (outcome : StartOutcome) (h : f.state = .offline) :
      Moves (.start outcome) f .starting
  | comesUp {r : Routine} {f : Flags} (h : f.state = .starting) : Moves r f .running
  | goesDown {r : Routine} {f : Flags} (h : f.state = .starting ∨ f.state = .running) :
      Moves r f .stopping
  | exits {f : Flags} (code : Int) (h : f.running = true) :
      Moves (.waitForExit f.exited (.polled code)) f .offline

/-- Offline is where nothing is running. -/
def Flags.Coherent (f : Flags) : Prop := f.running = false ↔ f.state = .offline

private theorem moves_goesDown (r : Routine) (f : Flags) : Moves r f f.state.goesDown := by
  cases h : f.state with
  | starting => exact .goesDown (.inl h)
  | running => exact .goesDown (.inr h)
  | offline => exact .stays h.symm
  | stopping => exact .stays h.symm

private theorem moves_comesUp (r : Routine) (f : Flags) : Moves r f f.state.comesUp := by
  cases h : f.state with
  | starting => exact .comesUp h
  | offline => exact .stays h.symm
  | running => exact .stays h.symm
  | stopping => exact .stays h.symm

/-- A running instance may be stopped in any state. -/
private theorem moves_stopping {r : Routine} {f : Flags} (hcoherent : f.Coherent)
    (hrunning : f.running = true) : Moves r f .stopping := by
  cases h : f.state with
  | starting => exact .goesDown (.inl h)
  | running => exact .goesDown (.inr h)
  | stopping => exact .stays h.symm
  | offline =>
    rw [hcoherent.2 h] at hrunning
    cases hrunning

/-- What one step does: the state moves along the lifecycle, and stays coherent. -/
structure GoodStep (r : Routine) (f f' : Flags) : Prop where
  moves : Moves r f f'.state
  coherent : f'.Coherent

private theorem goodStep_same {r : Routine} {f : Flags} (h : f.Coherent) : GoodStep r f f :=
  ⟨.stays rfl, h⟩

theorem Section.goodStep {r : Routine} {f : Flags} (h : f.Coherent) (sec : Section) :
    GoodStep r f (sec.flagsAfter f) := by
  have hdown : (f.state.goesDown = .offline ↔ f.state = .offline) := by
    cases f.state <;> decide
  have hup : (f.state.comesUp = .offline ↔ f.state = .offline) := by
    cases f.state <;> decide
  cases sec with
  | serverStop => exact ⟨moves_goesDown r f, Iff.trans h hdown.symm⟩
  | serverCrash => exact ⟨moves_goesDown r f, Iff.trans h hdown.symm⟩
  | serverReady => exact ⟨moves_comesUp r f, Iff.trans h hup.symm⟩
  | armExitDeadline => exact ⟨.stays rfl, h⟩
  | _ => exact goodStep_same h

/-- An exit deadline acts on the current boot while its process is running. -/
def DeadlineInTime (c : Config Instance Routine) (r : Routine) : Prop :=
  ∀ boot, r = .watchExitDeadline boot → c.shared.exited = boot → c.shared.running = true

/-! ## The exit of a boot -/

/-- A routine that will record an exit. -/
def Routine.awaitsExit : Routine → Bool
  | .waitForExit _ (.recorded _ _) | .waitForExit _ (.narrated _) => false
  | .waitForExit _ _ => true
  | _ => false

/-- The boot a routine keeps. -/
def Routine.boot? : Routine → Option Nat
  | .streamOutput boot _ | .waitForExit boot _ | .watchStarting boot | .watchExitDeadline boot =>
    some boot
  | _ => none

theorem awaitsExit_of_boot?_eq_none {r : Routine} (h : r.boot? = none) : r.awaitsExit = false := by
  cases r <;> first | rfl | cases h

theorem boot?_afterStop (grace : Int) (s : Instance) : (afterStop grace s).boot? = none := by
  unfold afterStop
  split <;> rfl

theorem boot?_afterForceStop (s : Instance) : (afterForceStop s).boot? = none := by
  unfold afterForceStop
  split <;> rfl

theorem boot?_afterPromote (s : Instance) : (afterPromote s).boot? = none := by
  unfold afterPromote
  split <;> rfl

theorem boot?_afterEndStop (boot : Nat) (s : Instance) : (afterEndStop boot s).boot? = none := by
  unfold afterEndStop
  split <;> rfl

theorem awaitsExit_spawns (sec : Section) (s : Instance) :
    (sec.spawns s).countP Routine.awaitsExit = 0 := by
  unfold Section.spawns
  split
  · split <;> rfl
  · rfl

theorem Section.flagsAfter_running (sec : Section) (f : Flags) :
    (sec.flagsAfter f).running = f.running := by
  cases sec <;> rfl

/-- A step that neither begins nor ends a boot. -/
private theorem balanced_of_quiet {r r' : Routine} {new : List Routine} {before after : Bool}
    (hr : r.awaitsExit = false) (hr' : r'.awaitsExit = false)
    (hnew : new.countP Routine.awaitsExit = 0) (hrunning : after = before) :
    before.toNat + (r' :: new).countP Routine.awaitsExit =
      after.toNat + [r].countP Routine.awaitsExit := by
  rw [hrunning, List.countP_cons, List.countP_singleton, hnew, hr, hr', Nat.zero_add]

/-- A process is running as long as its exit is awaited. -/
theorem balanced_awaitsExit :
    Balanced (lifecycle parseIP) Instance.running Routine.awaitsExit := by
  intro r s r' s' new h hheld
  have hrunning : s'.running = (r.flagsAfter s.flags).running := congrArg Flags.running h.flags
  cases h with
  | start outcome =>
    cases hr : s.running with
    | true =>
      refine balanced_of_quiet rfl rfl ?_ (hrunning.trans ?_)
      · simp [Instance.boots, hr]
      · simp [Routine.flagsAfter, Instance.flags, hr]
    | false =>
      rw [hrunning]
      cases outcome <;> simp only [Routine.flagsAfter, Instance.flags, Instance.boots, hr] <;> rfl
  | stop grace =>
    refine balanced_of_quiet rfl (awaitsExit_of_boot?_eq_none (boot?_afterStop grace s)) rfl
      (hrunning.trans ?_)
    simp only [Routine.flagsAfter]
    split <;> rfl
  | forceStop =>
    refine balanced_of_quiet rfl (awaitsExit_of_boot?_eq_none (boot?_afterForceStop s)) rfl
      (hrunning.trans ?_)
    simp only [Routine.flagsAfter]
    split <;> rfl
  | output boot sec todo now =>
    exact balanced_of_quiet rfl rfl (awaitsExit_spawns sec s)
      (hrunning.trans (sec.flagsAfter_running s.flags))
  | record boot code =>
    rw [show s.running = true from hheld rfl, hrunning]
    rfl
  | promote boot =>
    exact balanced_of_quiet rfl (awaitsExit_of_boot?_eq_none (boot?_afterPromote s)) rfl hrunning
  | endStop boot =>
    refine balanced_of_quiet rfl (awaitsExit_of_boot?_eq_none (boot?_afterEndStop boot s)) rfl
      (hrunning.trans ?_)
    simp only [Routine.flagsAfter]
    split <;> rfl
  | narrateExit boot stop crashed now => exact balanced_of_quiet rfl rfl rfl hrunning
  | _ => rfl

theorem holders_awaitsExit {allowed : Config Instance Routine → Routine → Prop} {id : String}
    {trace : Trace Instance Routine} {c : Config Instance Routine}
    (hrun : Run (lifecycle parseIP) allowed (newServerInstance id) trace c) :
    holders Routine.awaitsExit c = c.shared.running.toNat := by
  refine hrun.holders_eq balanced_awaitsExit ?_ rfl
  intro r hr
  cases r <;> first | rfl | cases hr

/-- No routine is of a boot still to come, and the exit that is awaited is that of the last. -/
structure BootsKnown (c : Config Instance Routine) : Prop where
  le : ∀ r ∈ c.threads, ∀ boot, r.boot? = some boot → boot ≤ c.shared.exited
  current : ∀ r ∈ c.threads, r.awaitsExit = true → r.boot? = some c.shared.exited

theorem Section.flagsAfter_exited (sec : Section) (f : Flags) :
    (sec.flagsAfter f).exited = f.exited := by
  cases sec <;> rfl

/-- Only a start makes a channel, and it does so while nothing is running. -/
theorem Routine.flagsAfter_exited (f : Flags) (r : Routine) :
    (r.flagsAfter f).exited = f.exited ∨
      (f.running = false ∧ (r.flagsAfter f).exited = f.exited + 1) := by
  cases r with
  | start outcome =>
    cases hr : f.running with
    | true => exact .inl (by simp [Routine.flagsAfter, hr])
    | false => cases outcome <;> simp [Routine.flagsAfter, hr]
  | stop grace =>
    refine .inl ?_
    simp only [Routine.flagsAfter]
    split <;> rfl
  | forceStop =>
    refine .inl ?_
    simp only [Routine.flagsAfter]
    split <;> rfl
  | streamOutput boot todo =>
    cases todo with
    | nil => exact .inl rfl
    | cons sec todo => exact .inl (sec.flagsAfter_exited f)
  | waitForExit boot phase => cases phase <;> exact .inl rfl
  | watchExitDeadline boot =>
    refine .inl ?_
    simp only [Routine.flagsAfter]
    split <;> rfl
  | _ => exact .inl rfl

/-- The state in which a boot begins. -/
theorem start_of_up {f : Flags} {r : Routine} (hdown : f.running = false)
    (hup : (r.flagsAfter f).running = true) :
    r = .start .boots ∧ r.flagsAfter f = ⟨true, f.exited + 1, .starting, false, false, false⟩ := by
  cases r with
  | start outcome => cases outcome <;> simp_all [Routine.flagsAfter]
  | streamOutput boot todo =>
    cases todo with
    | nil => simp_all [Routine.flagsAfter]
    | cons sec todo => simp_all [Routine.flagsAfter, Section.flagsAfter_running]
  | waitForExit boot phase => cases phase <;> simp_all [Routine.flagsAfter]
  | watchExitDeadline boot =>
    simp only [Routine.flagsAfter] at hup
    split at hup <;> simp_all
  | _ => simp_all [Routine.flagsAfter]

/-- A routine keeps its boot until it has none, and awaits an exit only as long as it did. -/
theorem Routine.Step.boot {r r' : Routine} {s s' : Instance} {new : List Routine}
    (h : Routine.Step parseIP r s r' s' new) :
    r'.boot? = none ∨ r'.boot? = r.boot? ∧ (r'.awaitsExit = true → r.awaitsExit = true) := by
  cases h with
  | start outcome => exact .inl rfl
  | stop grace => exact .inl (boot?_afterStop grace s)
  | forceStop => exact .inl (boot?_afterForceStop s)
  | promote boot => exact .inl (boot?_afterPromote s)
  | endStop boot => exact .inl (boot?_afterEndStop boot s)
  | announce boot stop => exact .inl rfl
  | narrate outcome line now => exact .inl rfl
  | scan boot line => exact .inr ⟨rfl, id⟩
  | output boot sec todo now => exact .inr ⟨rfl, id⟩
  | narrateExit boot stop crashed now => exact .inr ⟨rfl, fun hawaits => nomatch hawaits⟩
  | _ => exact .inr ⟨rfl, fun _ => rfl⟩

/-- The routines that are started are of the current boot. -/
theorem Routine.Step.new_boot {r r' : Routine} {s s' : Instance} {new : List Routine}
    (h : Routine.Step parseIP r s r' s' new) : ∀ u ∈ new, u.boot? = some s'.exited := by
  have hexited : s'.exited = (r.flagsAfter s.flags).exited := congrArg Flags.exited h.flags
  rw [hexited]
  cases h with
  | start outcome =>
    intro u hu
    split at hu
    · next hboots =>
      simp only [Instance.boots, Bool.and_eq_true, Bool.not_eq_true', beq_iff_eq] at hboots
      obtain ⟨hr, rfl⟩ := hboots
      simp only [bootRoutines, List.mem_cons, List.not_mem_nil, or_false] at hu
      simp only [Routine.flagsAfter, Instance.flags, hr]
      rcases hu with rfl | rfl | rfl | rfl <;> rfl
    · cases hu
  | output boot sec todo now =>
    intro u hu
    cases sec with
    | armExitDeadline =>
      simp only [Section.spawns] at hu
      split at hu
      · obtain rfl := List.mem_singleton.1 hu
        rfl
      · cases hu
    | _ => cases hu
  | _ => exact fun u hu => nomatch hu

theorem BootsKnown.act {c c' : Config Instance Routine} {r : Routine} (h : BootsKnown c)
    (hholders : holders Routine.awaitsExit c = c.shared.running.toNat)
    (hact : Acts (lifecycle parseIP) c r c') : BootsKnown c' := by
  have hacting := hact.mem
  obtain ⟨r', new, hstep, hmem⟩ := hact.exists_step
  have hexited : c'.shared.exited = c.shared.exited ∨
      (c.shared.running = false ∧ c'.shared.exited = c.shared.exited + 1) := by
    rw [show c'.shared.exited = (r.flagsAfter c.shared.flags).exited from
      congrArg Flags.exited hstep.flags]
    exact r.flagsAfter_exited c.shared.flags
  constructor
  · intro u hu boot hboot
    have hle : c.shared.exited ≤ c'.shared.exited := by omega
    rcases hmem u hu with hold | rfl | hnew
    · exact (h.le u hold boot hboot).trans hle
    · rcases hstep.boot with hnone | ⟨hsame, -⟩
      · rw [hnone] at hboot
        cases hboot
      · exact (h.le r hacting boot (hsame.symm.trans hboot)).trans hle
    · rw [hstep.new_boot u hnew] at hboot
      cases hboot
      exact le_refl _
  · intro u hu hawaits
    have hold : ∀ v ∈ c.threads, v.awaitsExit = true → v.boot? = some c'.shared.exited := by
      intro v hv hvawaits
      have hrunning : c.shared.running = true := locked_of_holds hholders hv hvawaits
      rcases hexited with heq | ⟨hdown, -⟩
      · rw [heq]
        exact h.current v hv hvawaits
      · rw [hrunning] at hdown
        cases hdown
    rcases hmem u hu with hthere | rfl | hnew
    · exact hold u hthere hawaits
    · rcases hstep.boot with hnone | ⟨hsame, hback⟩
      · rw [awaitsExit_of_boot?_eq_none hnone] at hawaits
        cases hawaits
      · exact hsame.trans (hold r hacting (hback hawaits))
    · exact hstep.new_boot u hnew

theorem bootsKnown {allowed : Config Instance Routine → Routine → Prop} {id : String}
    {trace : Trace Instance Routine} {c : Config Instance Routine}
    (hrun : Run (lifecycle parseIP) allowed (newServerInstance id) trace c) : BootsKnown c := by
  induction hrun with
  | nil => exact ⟨fun r hr => (nomatch hr), fun r hr => (nomatch hr)⟩
  | call hrun r h ih =>
    have hnone : r.boot? = none := by cases r <;> first | rfl | cases h
    constructor
    · intro u hu boot hboot
      rcases List.mem_append.1 hu with hold | hnew
      · exact ih.le u hold boot hboot
      · obtain rfl := List.mem_singleton.1 hnew
        rw [hnone] at hboot
        cases hboot
    · intro u hu hawaits
      rcases List.mem_append.1 hu with hold | hnew
      · exact ih.current u hold hawaits
      · obtain rfl := List.mem_singleton.1 hnew
        rw [awaitsExit_of_boot?_eq_none hnone] at hawaits
        cases hawaits
  | act hrun _ h ih => exact ih.act (holders_awaitsExit hrun) h

/-! ## Every run -/

/-- The mark of a stop on a running instance. -/
private theorem goodStep_stop {r : Routine} {f : Flags} (hcoherent : f.Coherent)
    (hrunning : f.running = true) :
    GoodStep r f { f with expectedStop := true, state := .stopping } := by
  refine ⟨moves_stopping hcoherent hrunning, ?_⟩
  constructor
  · intro hdown
    exact absurd hrunning (Bool.eq_false_iff.1 hdown)
  · intro hoff
    cases hoff

/-- One step from a coherent state, where an exit deadline acts in time and an exit is recorded
by the routine of the boot that runs. -/
theorem Routine.goodStep {f : Flags} (hcoherent : f.Coherent) (r : Routine)
    (hintime : ∀ boot, r = .watchExitDeadline boot → f.exited = boot → f.running = true)
    (hawaited : r.awaitsExit = true → r.boot? = some f.exited ∧ f.running = true) :
    GoodStep r f (r.flagsAfter f) := by
  cases r with
  | start outcome =>
    cases hr : f.running with
    | true =>
      simp only [Routine.flagsAfter, hr, if_true]
      exact goodStep_same hcoherent
    | false =>
      cases outcome with
      | boots =>
        simp only [Routine.flagsAfter, hr, Bool.false_eq_true, if_false]
        refine ⟨.starts .boots (hcoherent.1 hr), ?_⟩
        constructor <;> intro h <;> cases h
      | launchFails =>
        simp only [Routine.flagsAfter, hr, Bool.false_eq_true, if_false]
        exact goodStep_same hcoherent
      | _ =>
        simp only [Routine.flagsAfter, hr, Bool.false_eq_true, if_false]
        exact ⟨.stays rfl, fun _ => hcoherent.1 hr, fun _ => rfl⟩
  | stop grace =>
    simp only [Routine.flagsAfter]
    split
    · next hrunning => exact goodStep_stop hcoherent hrunning
    · exact goodStep_same hcoherent
  | forceStop =>
    simp only [Routine.flagsAfter]
    split
    · next hrunning => exact goodStep_stop hcoherent hrunning
    · exact goodStep_same hcoherent
  | streamOutput boot todo =>
    cases todo with
    | nil => exact goodStep_same hcoherent
    | cons sec todo => exact sec.goodStep hcoherent
  | waitForExit boot phase =>
    cases phase with
    | polled code =>
      obtain ⟨hboot, hrunning⟩ := hawaited rfl
      obtain rfl : boot = f.exited := Option.some.inj hboot
      exact ⟨.exits code hrunning, ⟨fun _ => rfl, fun _ => rfl⟩⟩
    | _ => exact goodStep_same hcoherent
  | watchStarting boot =>
    refine ⟨moves_comesUp _ f, Iff.trans hcoherent ?_⟩
    change f.state = .offline ↔ f.state.comesUp = .offline
    cases f.state <;> decide
  | watchExitDeadline boot =>
    simp only [Routine.flagsAfter]
    split
    · next hcurrent => exact goodStep_stop hcoherent (hintime boot rfl hcurrent)
    · exact goodStep_same hcoherent
  | _ => exact goodStep_same hcoherent

section

variable {id : String} {trace : Trace Instance Routine} {c : Config Instance Routine}

/-- An exit is awaited by the routine of the boot that runs. -/
theorem awaited_current {allowed : Config Instance Routine → Routine → Prop} {r : Routine}
    (hrun : Run (lifecycle parseIP) allowed (newServerInstance id) trace c)
    (hmem : r ∈ c.threads) (hawaits : r.awaitsExit = true) :
    r.boot? = some c.shared.exited ∧ c.shared.running = true :=
  ⟨(bootsKnown hrun).current r hmem hawaits,
    locked_of_holds (holders_awaitsExit hrun) hmem hawaits⟩

/-- In a run whose exit deadlines act in time, every step is a good one. -/
theorem goodStep_of_inTime {r : Routine} {c' : Config Instance Routine}
    (hrun : Run (lifecycle parseIP) DeadlineInTime (newServerInstance id) trace c)
    (hcoherent : c.shared.flags.Coherent) (hintime : DeadlineInTime c r)
    (hact : Acts (lifecycle parseIP) c r c') : GoodStep r c.shared.flags c'.shared.flags := by
  obtain ⟨r', new, hstep, -⟩ := hact.exists_step
  rw [hstep.flags]
  exact r.goodStep hcoherent hintime (awaited_current hrun hact.mem)

theorem coherent_of_inTime
    (hrun : Run (lifecycle parseIP) DeadlineInTime (newServerInstance id) trace c) :
    c.shared.flags.Coherent := by
  induction hrun with
  | nil => exact ⟨fun _ => rfl, fun _ => rfl⟩
  | call hrun r h ih => exact ih
  | act hrun hintime h ih => exact (goodStep_of_inTime hrun ih hintime h).coherent

/-- In every run in which no exit deadline acts on its boot after the exit has been recorded, the
instance is offline exactly while nothing runs, and its state moves along the lifecycle. -/
theorem lifecycle_of_inTime
    (hrun : Run (lifecycle parseIP) DeadlineInTime (newServerInstance id) trace c) :
    (c.shared.running = false ↔ c.shared.state = .offline) ∧
      ∀ r c', DeadlineInTime c r → Acts (lifecycle parseIP) c r c' →
        Moves r c.shared.flags c'.shared.state := by
  refine ⟨coherent_of_inTime hrun, fun r c' hintime hact => ?_⟩
  exact (goodStep_of_inTime hrun (coherent_of_inTime hrun) hintime hact).moves

end

/-- A server that has been started. -/
theorem lifecycle_of_inTime_started : ∃ trace c,
    Run (lifecycle fun _ => none) DeadlineInTime (newServerInstance "s1") trace c ∧
      c.shared.state = .starting ∧ ∀ r c', DeadlineInTime c r →
        Acts (lifecycle fun _ => none) c r c' → Moves r c.shared.flags c'.shared.state := by
  have hbegin : Run (lifecycle fun _ => none) DeadlineInTime (newServerInstance "s1") [] _ := .nil
  have hstart := (hbegin.call (.start .boots) rfl).actAt [] [] rfl
    (fun boot hr => nomatch hr) (.start .boots)
  exact ⟨_, _, hstart, rfl, (lifecycle_of_inTime hstart).2⟩

/-! ## A deadline that wins against the exit -/

/-- The line that arms the exit deadline of a server that is being stopped. -/
def savedLine : String :=
  "[12:00:00] [Server thread/INFO]: ThreadedAnvilChunkStorage: All dimensions are saved"

theorem lineSections_savedLine :
    lineSections (fun _ => none) savedLine = [.console savedLine, .armExitDeadline] := by
  decide +kernel

/-- A server is stopped and saves its worlds, and its process exits as the deadline runs out. -/
theorem not_lifecycle_lateDeadline :
    ¬ ∀ trace c, Run (lifecycle fun _ => none) Unrestricted (newServerInstance "s1") trace c →
      (c.shared.running = false ↔ c.shared.state = .offline) := by
  intro h
  have hbegin : Run (lifecycle fun _ => none) Unrestricted (newServerInstance "s1") [] _ := .nil
  have hstart := (hbegin.call (.start .boots) rfl).actAt [] [] rfl trivial (.start .boots)
  have hstop := (hstart.call (.stop 0) rfl).actAt
    (.returned :: bootRoutines 1) [] rfl trivial (.stop 0)
  have hscan := hstop.actAt [.returned] [.streamOutput 1 [], .waitForExit 1 .waiting,
    .watchStarting 1, .returned] rfl trivial (.scan 1 savedLine)
  rw [lineSections_savedLine] at hscan
  have hconsole := hscan.actAt [.returned] [.streamOutput 1 [], .waitForExit 1 .waiting,
    .watchStarting 1, .returned] rfl trivial (.output 1 (.console savedLine) [.armExitDeadline] 0)
  have harm := hconsole.actAt [.returned] [.streamOutput 1 [], .waitForExit 1 .waiting,
    .watchStarting 1, .returned] rfl trivial (.output 1 .armExitDeadline [] 0)
  have hreap := harm.actAt [.returned, .streamOutput 1 [], .streamOutput 1 []]
    [.watchStarting 1, .returned, .watchExitDeadline 1] rfl trivial (.reap 1 0)
  have hclear := hreap.actAt [.returned, .streamOutput 1 [], .streamOutput 1 []]
    [.watchStarting 1, .returned, .watchExitDeadline 1] rfl trivial (.clear 1 0)
  have hpolled := hclear.actAt [.returned, .streamOutput 1 [], .streamOutput 1 []]
    [.watchStarting 1, .returned, .watchExitDeadline 1] rfl trivial (.stopPoll 1 0)
  have hrecord := hpolled.actAt [.returned, .streamOutput 1 [], .streamOutput 1 []]
    [.watchStarting 1, .returned, .watchExitDeadline 1] rfl trivial (.record 1 0)
  have hend := hrecord.actAt [.returned, .streamOutput 1 [], .streamOutput 1 [], .waitForExit 1 _,
    .watchStarting 1, .returned] [] rfl trivial (.endStop 1)
  have hstate := (h _ _ hend).1 rfl
  cases hstate

end Konnekt.Server
