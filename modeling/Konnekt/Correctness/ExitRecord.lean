import Konnekt.Correctness.Lifecycle

/-!
# The record of an exit

Five routines write the two marks of a boot in any order, and the exit of its
process reads them once. What is recorded is what the steps since the start of the
process say, and the value that is recorded is the one that is announced, once.
-/

namespace Konnekt.Server

open Go Threads

variable {parseIP : String → Option String}

/-! ## The steps of a boot -/

/-- A step asks for the stop: a line of a shutdown, a call, or the exit deadline of the boot. -/
def Routine.asksStop (s : Instance) : Routine → Bool
  | .streamOutput _ (.serverStop :: _) | .stop _ | .forceStop => true
  | .watchExitDeadline boot => s.exited == boot
  | _ => false

/-- A step reads a line of a crash report. -/
def Routine.readsCrash : Routine → Bool
  | .streamOutput _ (.serverCrash :: _) => true
  | _ => false

/-- A step starts a process. -/
def startsBoot (e : Instance × Routine) : Bool :=
  match e.2 with
  | .start outcome => e.1.boots outcome
  | _ => false

/-- The steps since the last start of a process. -/
def sinceStart (trace : Trace Instance Routine) : Trace Instance Routine :=
  trace.takeWhile fun e => !startsBoot e

/-- The steps are those of a stop that was asked for, and of no crash. -/
def Deliberate (steps : Trace Instance Routine) : Prop :=
  (∀ e ∈ steps, e.2.readsCrash = false) ∧ ∃ e ∈ steps, e.2.asksStop e.1 = true

/-- What a step records as the last stop. -/
def recordedStop (e : Instance × Routine) : Option ServerStopped :=
  match e.2 with
  | .waitForExit _ (.polled code) => some (e.1.recordExit code).lastStop
  | _ => none

/-- The stop that a routine has still to announce. -/
def Routine.announces : Routine → Option ServerStopped
  | .waitForExit _ (.recorded last _) | .waitForExit _ (.narrated last) => some last
  | _ => none

/-- The stop that an event announces. -/
def Event.stop? : Event → Option ServerStopped
  | .serverStopped last => some last
  | _ => none

/-- The last stop that was recorded, and the stops that have been announced. -/
def Instance.stops (s : Instance) : ServerStopped × List ServerStopped :=
  (s.lastStop, s.events.filterMap Event.stop?)

/-! ## The marks -/

theorem startsBoot_of_running {s : Instance} (hrunning : s.running = true) (r : Routine) :
    startsBoot (s, r) = false := by
  cases r with
  | start outcome => simp [startsBoot, Instance.boots, hrunning]
  | _ => rfl

/-- While a process runs, a step marks the stop exactly when it asks for it. -/
theorem Routine.flagsAfter_expectedStop {s : Instance} (hrunning : s.running = true)
    (r : Routine) :
    (r.flagsAfter s.flags).expectedStop = (r.asksStop s || s.expectedStop) := by
  cases r with
  | start outcome => simp [Routine.flagsAfter, Instance.flags, Routine.asksStop, hrunning]
  | stop grace => simp [Routine.flagsAfter, Instance.flags, Routine.asksStop, hrunning]
  | forceStop => simp [Routine.flagsAfter, Instance.flags, Routine.asksStop, hrunning]
  | streamOutput boot todo =>
    cases todo with
    | nil => rfl
    | cons sec todo => cases sec <;> rfl
  | waitForExit boot phase => cases phase <;> rfl
  | watchExitDeadline boot =>
    by_cases hcurrent : s.exited = boot
    · simp [Routine.flagsAfter, Instance.flags, Routine.asksStop, hcurrent]
    · simp [Routine.flagsAfter, Instance.flags, Routine.asksStop, hcurrent]
  | _ => rfl

/-- While a process runs, a step marks the crash exactly when it reads of it. -/
theorem Routine.flagsAfter_crashed {s : Instance} (hrunning : s.running = true) (r : Routine) :
    (r.flagsAfter s.flags).crashed = (r.readsCrash || s.crashed) := by
  cases r with
  | start outcome => simp [Routine.flagsAfter, Instance.flags, Routine.readsCrash, hrunning]
  | stop grace => simp [Routine.flagsAfter, Instance.flags, Routine.readsCrash, hrunning]
  | forceStop => simp [Routine.flagsAfter, Instance.flags, Routine.readsCrash, hrunning]
  | streamOutput boot todo =>
    cases todo with
    | nil => rfl
    | cons sec todo => cases sec <;> rfl
  | waitForExit boot phase => cases phase <;> rfl
  | watchExitDeadline boot =>
    by_cases hcurrent : s.exited = boot
    · simp [Routine.flagsAfter, Instance.flags, Routine.readsCrash, hcurrent]
    · simp [Routine.flagsAfter, Instance.flags, Routine.readsCrash, hcurrent]
  | _ => rfl

section

variable {allowed : Config Instance Routine → Routine → Prop} {id : String}
  {trace : Trace Instance Routine} {c : Config Instance Routine}

/-- While a process runs, its marks say what the steps since its start did. -/
theorem marks_of_run (hrun : Run (lifecycle parseIP) allowed (newServerInstance id) trace c)
    (hrunning : c.shared.running = true) :
    c.shared.expectedStop = (sinceStart trace).any (fun e => e.2.asksStop e.1) ∧
      c.shared.crashed = (sinceStart trace).any (fun e => e.2.readsCrash) := by
  induction hrun with
  | nil => cases hrunning
  | call hrun r h ih => exact ih hrunning
  | @act trace c c' r hrun _ h ih =>
    obtain ⟨r', new, hstep, -⟩ := h.exists_step
    have hafter : c'.shared.flags = r.flagsAfter c.shared.flags := hstep.flags
    have hup : (r.flagsAfter c.shared.flags).running = true := by
      rw [← hafter]
      exact hrunning
    have hexpected : c'.shared.expectedStop = (r.flagsAfter c.shared.flags).expectedStop :=
      congrArg Flags.expectedStop hafter
    have hcrashed : c'.shared.crashed = (r.flagsAfter c.shared.flags).crashed :=
      congrArg Flags.crashed hafter
    rw [hexpected, hcrashed]
    cases hbefore : c.shared.running with
    | false =>
      -- the process starts here, with both marks cleared
      obtain ⟨rfl, hfresh⟩ := start_of_up hbefore hup
      have hstarts : startsBoot (c.shared, .start .boots) = true := by
        simp [startsBoot, Instance.boots, hbefore]
      have hsteps : sinceStart ((c.shared, .start .boots) :: trace) = [] :=
        List.takeWhile_cons_of_neg (by rw [hstarts, Bool.not_true]; exact Bool.false_ne_true)
      rw [hfresh, hsteps]
      exact ⟨rfl, rfl⟩
    | true =>
      obtain ⟨hstop, hcrash⟩ := ih hbefore
      have hgoeson : startsBoot (c.shared, r) = false := startsBoot_of_running hbefore r
      have hsteps : sinceStart ((c.shared, r) :: trace) = (c.shared, r) :: sinceStart trace :=
        List.takeWhile_cons_of_pos (by rw [hgoeson, Bool.not_false])
      rw [r.flagsAfter_expectedStop hbefore, r.flagsAfter_crashed hbefore, hstop, hcrash, hsteps,
        List.any_cons, List.any_cons]
      exact ⟨rfl, rfl⟩

/-- What the exit of a process is recorded as. -/
theorem expected_of_run (hrun : Run (lifecycle parseIP) allowed (newServerInstance id) trace c)
    (hrunning : c.shared.running = true) (code : Int) :
    (c.shared.recordExit code).lastStop.expected = true ↔ Deliberate (sinceStart trace) := by
  obtain ⟨hstop, hcrash⟩ := marks_of_run hrun hrunning
  change (c.shared.expectedStop && !c.shared.crashed) = true ↔ _
  rw [Bool.and_eq_true, Bool.not_eq_true', hstop, hcrash, List.any_eq_true, List.any_eq_false,
    and_comm]
  simp only [Deliberate, Bool.not_eq_true]

end

/-! ## The announcement -/

theorem stops_setStateLocked (next : ServerState) (timedOut : Bool) (s : Instance) :
    (s.setStateLocked next timedOut).stops = s.stops := by
  unfold Instance.setStateLocked
  split
  · rfl
  · simp [Instance.stops, Event.stop?]

theorem stops_stopFromUp (s : Instance) : s.stopFromUp.stops = s.stops := by
  unfold Instance.stopFromUp
  split
  · exact stops_setStateLocked _ _ s
  · rfl

theorem stops_narrate (now : Int) (outcome line : String) (s : Instance) :
    (s.narrate now outcome line).stops = s.stops := by
  simp [Instance.narrate, Instance.emitConsoleLineTagged, Instance.stops, Event.stop?]

theorem stops_recordPlayerField (name : String) (set : PlayerSession → PlayerSession)
    (s : Instance) : (s.recordPlayerField name set).stops = s.stops := by
  unfold Instance.recordPlayerField
  split <;> rfl

theorem stops_comesUp (timedOut : Bool) (s : Instance) :
    (if s.state = .starting then s.enterRunningLocked timedOut else s).stops = s.stops := by
  split
  · exact stops_setStateLocked _ _ s
  · rfl

/-- The read loop announces no stop. -/
theorem Section.run_stops (sec : Section) (now : Int) (s : Instance) :
    (sec.run now s).1.stops = s.stops := by
  cases sec with
  | console line =>
    simp [Section.run, Instance.emitConsoleLine, Instance.emitConsoleLineTagged,
      Instance.stops, Event.stop?]
  | eulaRequired => simp [Section.run, Instance.stops, Event.stop?]
  | serverStop => exact stops_stopFromUp _
  | serverCrash => exact stops_stopFromUp _
  | narrateFailed line => exact stops_narrate now _ line s
  | armExitDeadline =>
    change (if s.armable then { s with deadlineArmed := true } else s).stops = _
    split <;> rfl
  | serverReady => exact stops_comesUp false s
  | playerUUID name uuid => exact stops_recordPlayerField name _ s
  | playerIP name ip => exact stops_recordPlayerField name _ s
  | playerJoined name =>
    change (s.promotePlayer name).stops = _
    simp only [Instance.promotePlayer, Instance.stops]
    split <;> simp [Event.stop?]
  | playerLeft name =>
    change (s.removePlayer name).stops = _
    simp only [Instance.removePlayer, Instance.stops]
    split <;> simp [Event.stop?]
  | _ => rfl

theorem stops_start (outcome : StartOutcome) (s : Instance) :
    (s.start outcome).stops = s.stops := by
  unfold Instance.start
  split
  · rfl
  · cases outcome with
    | boots =>
      have h := stops_setStateLocked .starting false
        { s with exited := s.exited + 1, stdin := true, running := true, expectedStop := false,
                 crashed := false, deadlineArmed := false }
      simp only [Instance.stops, List.filterMap_append, List.filterMap_cons, Event.stop?,
        List.filterMap_nil, List.append_nil] at h ⊢
      exact h
    | _ => rfl

theorem stops_marksStop (s : Instance) :
    ({ s with expectedStop := true }.setStateLocked .stopping false).stops = s.stops :=
  stops_setStateLocked _ _ { s with expectedStop := true }

theorem announces_spawns (sec : Section) (s : Instance) :
    (sec.spawns s).filterMap Routine.announces = [] := by
  unfold Section.spawns
  split
  · split <;> rfl
  · rfl

/-- What a step records it has to announce, and what it announces it had to. -/
structure Routine.Announcing (r : Routine) (s : Instance) (r' : Routine) (s' : Instance)
    (new : List Routine) : Prop where
  quiet : new.filterMap Routine.announces = []
  last : s'.stops.1 = (recordedStop (s, r)).getD s.stops.1
  moved : (r'.announces.toList ++ s'.stops.2).Perm
    ((recordedStop (s, r)).toList ++ (r.announces.toList ++ s.stops.2))

/-- A step that has nothing to do with exits. -/
private theorem announcing_of_quiet {r r' : Routine} {s s' : Instance} {new : List Routine}
    (hnew : new.filterMap Routine.announces = []) (hr : recordedStop (s, r) = none)
    (hsame : r'.announces = r.announces) (hevents : s'.stops = s.stops) :
    r.Announcing s r' s' new := by
  refine ⟨hnew, ?_, ?_⟩
  · rw [hr, hevents]
    rfl
  · rw [hr, hsame, hevents]
    exact List.Perm.refl _

theorem Routine.Step.announcing {r r' : Routine} {s s' : Instance} {new : List Routine}
    (h : Routine.Step parseIP r s r' s' new) : r.Announcing s r' s' new := by
  cases h with
  | start outcome =>
    refine announcing_of_quiet ?_ rfl rfl (stops_start outcome s)
    split <;> rfl
  | stop grace =>
    refine announcing_of_quiet rfl rfl ?_ ?_
    · unfold afterStop
      split <;> rfl
    · unfold Instance.stop
      split
      · exact stops_marksStop s
      · rfl
  | forceStop =>
    refine announcing_of_quiet rfl rfl ?_ ?_
    · unfold afterForceStop
      split <;> rfl
    · unfold Instance.forceStop
      split
      · exact stops_marksStop s
      · rfl
  | output boot sec todo now =>
    refine announcing_of_quiet (announces_spawns sec s) ?_ rfl (sec.run_stops now s)
    rfl
  | record boot code =>
    refine ⟨rfl, rfl, ?_⟩
    have hevents := congrArg Prod.snd
      (stops_setStateLocked .offline false { s with running := false })
    change (s.recordExit code).stops.2 = s.stops.2 at hevents
    rw [hevents]
    exact List.Perm.refl _
  | narrateExit boot last crashed now =>
    refine announcing_of_quiet rfl rfl rfl ?_
    cases exitNarration crashed last with
    | none => rfl
    | some line => exact stops_narrate now _ line s
  | announce boot last =>
    refine ⟨rfl, rfl, ?_⟩
    simp only [Routine.announces, recordedStop, Instance.stops, List.filterMap_append,
      List.filterMap_cons, List.filterMap_nil, Event.stop?, Option.toList_none, Option.toList_some,
      List.nil_append]
    exact List.perm_append_comm
  | promote boot =>
    refine announcing_of_quiet rfl rfl ?_ (stops_comesUp true s)
    unfold afterPromote
    split <;> rfl
  | endStop boot =>
    refine announcing_of_quiet rfl rfl ?_ ?_
    · unfold afterEndStop
      split <;> rfl
    · unfold Instance.endStop
      split
      · exact stops_marksStop s
      · rfl
  | narrate outcome line now =>
    exact announcing_of_quiet rfl rfl rfl (stops_narrate now outcome line s)
  | _ => exact announcing_of_quiet rfl rfl rfl rfl

section

variable {allowed : Config Instance Routine → Routine → Prop} {id : String}
  {trace : Trace Instance Routine} {c : Config Instance Routine}

/-- The last stop is the one that was recorded last. -/
theorem lastStop_of_run (hrun : Run (lifecycle parseIP) allowed (newServerInstance id) trace c) :
    c.shared.lastStop = (trace.filterMap recordedStop).head?.getD ⟨false, 0⟩ := by
  induction hrun with
  | nil => rfl
  | call hrun r h ih => exact ih
  | @act trace c c' r hrun _ h ih =>
    obtain ⟨r', new, hstep, -⟩ := h.exists_step
    have hlast : c'.shared.lastStop = (recordedStop (c.shared, r)).getD c.shared.lastStop :=
      hstep.announcing.last
    rw [hlast, ih, List.filterMap_cons]
    cases recordedStop (c.shared, r) with
    | none => rfl
    | some last => rfl

/-- Every stop that is recorded is announced once, unless its routine has still to do so. -/
theorem announced_of_run
    (hrun : Run (lifecycle parseIP) allowed (newServerInstance id) trace c) :
    (trace.filterMap recordedStop).Perm
      (c.threads.filterMap Routine.announces ++ c.shared.events.filterMap Event.stop?) := by
  induction hrun with
  | nil => exact List.Perm.refl _
  | @call trace c hrun r h ih =>
    have hnone : r.announces = none := by cases r <;> first | rfl | cases h
    rw [List.filterMap_append, List.filterMap_cons, hnone, List.filterMap_nil, List.append_nil]
    exact ih
  | @act trace c c' r hrun _ h ih =>
    obtain ⟨r', new, others, hstep, hbefore, hafter⟩ := h.exists_others
    obtain ⟨hquiet, -, hmoved⟩ := hstep.announcing
    have htoList (e : Instance × Routine) :
        (e :: trace).filterMap recordedStop =
          (recordedStop e).toList ++ trace.filterMap recordedStop := by
      rw [List.filterMap_cons]
      cases recordedStop e <;> rfl
    have hthreads (u : Routine) (threads : List Routine) :
        (u :: threads).filterMap Routine.announces =
          u.announces.toList ++ threads.filterMap Routine.announces := by
      rw [List.filterMap_cons]
      cases u.announces <;> rfl
    have hold := (hbefore.filterMap Routine.announces).append_right
      (c.shared.events.filterMap Event.stop?)
    have hnow := (hafter.filterMap Routine.announces).append_right
      (c'.shared.events.filterMap Event.stop?)
    rw [hthreads, List.append_assoc] at hold
    rw [hthreads, List.filterMap_append, hquiet, List.append_nil, List.append_assoc] at hnow
    rw [htoList]
    apply List.perm_iff_count.2
    intro last
    have hih := ih.count_eq last
    have hmove := hmoved.count_eq last
    have hold := hold.count_eq last
    have hnow := hnow.count_eq last
    simp only [List.count_append, Instance.stops] at hih hmove hold hnow ⊢
    omega

/-- In every run, each exit is recorded as deliberate exactly when the steps since the start of
its process ask for the stop and read of no crash; the value recorded last is the last stop, and
each value that is recorded goes out once. -/
theorem exits_of_run (hrun : Run (lifecycle parseIP) allowed (newServerInstance id) trace c) :
    (∀ newer s boot code older, trace = newer ++ (s, .waitForExit boot (.polled code)) :: older →
      ((s.recordExit code).lastStop.expected = true ↔ Deliberate (sinceStart older))) ∧
    c.shared.lastStop = (trace.filterMap recordedStop).head?.getD ⟨false, 0⟩ ∧
    (trace.filterMap recordedStop).Perm
      (c.threads.filterMap Routine.announces ++ c.shared.events.filterMap Event.stop?) := by
  refine ⟨?_, lastStop_of_run hrun, announced_of_run hrun⟩
  rintro newer s boot code older rfl
  obtain ⟨c₁, c₂, hbefore, rfl, -, hacts⟩ := hrun.before
  have hrunning : c₁.shared.running = true := (awaited_current hbefore hacts.mem rfl).2
  exact expected_of_run hbefore hrunning code

end

/-- The first line of a crash. -/
def crashLine : String :=
  "[12:00:00] [Server thread/ERROR]: Encountered an unexpected exception"

theorem lineSections_crashLine :
    lineSections (fun _ => none) crashLine = [.console crashLine, .serverCrash] := by
  decide +kernel

/-- A server crashes, is stopped, and exits: that is a crash. -/
theorem exits_of_run_crashed : ∃ trace c older s,
    Run (lifecycle fun _ => none) Unrestricted (newServerInstance "s1") trace c ∧
      trace = (s, .waitForExit 1 (.polled 1)) :: older ∧
      c.shared.lastStop = ⟨false, 1⟩ ∧ ¬ Deliberate (sinceStart older) := by
  have hbegin : Run (lifecycle fun _ => none) Unrestricted (newServerInstance "s1") [] _ := .nil
  have hstart := (hbegin.call (.start .boots) rfl).actAt [] [] rfl trivial (.start .boots)
  have hscan := hstart.actAt [.returned] [.streamOutput 1 [], .waitForExit 1 .waiting,
    .watchStarting 1] rfl trivial (.scan 1 crashLine)
  rw [lineSections_crashLine] at hscan
  have hconsole := hscan.actAt [.returned] [.streamOutput 1 [], .waitForExit 1 .waiting,
    .watchStarting 1] rfl trivial (.output 1 (.console crashLine) [.serverCrash] 0)
  have hcrash := hconsole.actAt [.returned] [.streamOutput 1 [], .waitForExit 1 .waiting,
    .watchStarting 1] rfl trivial (.output 1 .serverCrash [] 0)
  have hstop := (hcrash.call (.stop 0) rfl).actAt [.returned, .streamOutput 1 _,
    .streamOutput 1 [], .waitForExit 1 .waiting, .watchStarting 1] [] rfl trivial (.stop 0)
  have hreap := hstop.actAt [.returned, .streamOutput 1 _, .streamOutput 1 []]
    [.watchStarting 1, _] rfl trivial (.reap 1 1)
  have hclear := hreap.actAt [.returned, .streamOutput 1 _, .streamOutput 1 []]
    [.watchStarting 1, _] rfl trivial (.clear 1 1)
  have hpolled := hclear.actAt [.returned, .streamOutput 1 _, .streamOutput 1 []]
    [.watchStarting 1, _] rfl trivial (.stopPoll 1 1)
  have hrecord := hpolled.actAt [.returned, .streamOutput 1 _, .streamOutput 1 []]
    [.watchStarting 1, _] rfl trivial (.record 1 1)
  have hexits := (exits_of_run hrecord).1 [] _ 1 1 _ rfl
  refine ⟨_, _, _, _, hrecord, rfl, rfl, fun hdeliberate => ?_⟩
  have hexpected := hexits.2 hdeliberate
  cases hexpected

end Konnekt.Server
