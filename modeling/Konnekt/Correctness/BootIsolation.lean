import Konnekt.Correctness.Lifecycle

/-!
# Boots of one instance

The routines of a boot may take their last steps after its exit has been recorded,
and even during the next boot. They leave that boot alone as long as what they
have still to do is already done: the read loops and the start watchdog do not ask
whether their boot is over, and a line may enter a player again after the roster
has been cleared.
-/

namespace Konnekt.Server

open Go Threads

variable {parseIP : String → Option String}

/-! ## What a late step finds done -/

/-- The boot is over, or has not been. -/
def Late (boot : Nat) (f : Flags) : Prop := ¬ (f.running = true ∧ f.exited = boot)

/-- The flags are already as a section sets them. -/
def Section.Settled (f : Flags) : Section → Prop
  | .serverStop => f.expectedStop = true ∧ ¬ (f.state = .starting ∨ f.state = .running)
  | .serverCrash => f.crashed = true ∧ ¬ (f.state = .starting ∨ f.state = .running)
  | .armExitDeadline => f.deadlineArmed = true ∨ f.running = false ∨ f.state ≠ .stopping
  | .serverReady => f.state ≠ .starting
  | _ => True

theorem Section.flagsAfter_of_settled {f : Flags} {sec : Section} (h : sec.Settled f) :
    sec.flagsAfter f = f := by
  cases sec with
  | serverStop =>
    simp only [Section.flagsAfter, f.state.goesDown_of_not_up h.2, ← h.1]
  | serverCrash =>
    simp only [Section.flagsAfter, f.state.goesDown_of_not_up h.2, ← h.1]
  | serverReady => simp only [Section.flagsAfter, f.state.comesUp_of_not_starting h]
  | armExitDeadline =>
    have harmed : (f.deadlineArmed || (f.running && f.state == .stopping)) = f.deadlineArmed := by
      rcases h with h | h | h
      · rw [h, Bool.true_or]
      · rw [h, Bool.false_and, Bool.or_false]
      · rw [beq_eq_false_iff_ne.2 h, Bool.and_false, Bool.or_false]
    simp only [Section.flagsAfter, harmed]
  | _ => rfl

/-- What is known about a player, online or not. -/
def Instance.session? (s : Instance) (name : String) : Option PlayerSession :=
  (s.players.lookup name).or (s.presession.lookup name)

/-- The roster is already as a section sets it. -/
def Section.RosterSettled (s : Instance) : Section → Prop
  | .playerUUID name uuid => ∃ sess, s.session? name = some sess ∧ sess.uuid = uuid
  | .playerIP name ip => ∃ sess, s.session? name = some sess ∧ sess.ip = ip
  | .playerJoined name =>
    s.players.lookup name = some (s.promoted name) ∧ s.presession.lookup name = none
  | .playerLeft name => s.players.lookup name = none ∧ s.presession.lookup name = none
  | _ => True

/-- The same players with the same sessions. -/
def SameRoster (s s' : Instance) : Prop :=
  ∀ name, s'.players.lookup name = s.players.lookup name ∧
    s'.presession.lookup name = s.presession.lookup name

theorem SameRoster.refl (s : Instance) : SameRoster s s := fun _ => ⟨rfl, rfl⟩

private theorem lookup_insert_same {m : GoMap PlayerSession} {key : String} {sess : PlayerSession}
    (h : m.lookup key = some sess) (name : String) :
    (m.insert key sess).lookup name = m.lookup name := by
  by_cases hname : name = key
  · rw [hname, AList.lookup_insert, h]
  · exact AList.lookup_insert_ne hname

private theorem lookup_erase_none {m : GoMap PlayerSession} {key : String}
    (h : m.lookup key = none) (name : String) : (m.erase key).lookup name = m.lookup name := by
  by_cases hname : name = key
  · rw [hname, AList.lookup_erase, h]
  · exact AList.lookup_erase_ne hname

/-- Recording what is known already. -/
theorem sameRoster_recordPlayerField {s : Instance} {name : String}
    {set : PlayerSession → PlayerSession} {sess : PlayerSession}
    (hsess : s.session? name = some sess) (hset : set sess = sess) :
    SameRoster s (s.recordPlayerField name set) := by
  unfold Instance.session? at hsess
  unfold Instance.recordPlayerField
  cases honline : s.players.lookup name with
  | some live =>
    rw [honline] at hsess
    obtain rfl : live = sess := by simpa using hsess
    dsimp only
    rw [hset]
    exact fun other => ⟨lookup_insert_same honline other, rfl⟩
  | none =>
    rw [honline, Option.none_or] at hsess
    dsimp only
    rw [hsess, Option.getD_some, hset]
    exact fun other => ⟨rfl, lookup_insert_same hsess other⟩

theorem sameRoster_setStateLocked (next : ServerState) (timedOut : Bool) (s : Instance) :
    SameRoster s (s.setStateLocked next timedOut) := by
  intro name
  rw [Instance.setStateLocked_players, Instance.setStateLocked_presession]
  exact ⟨rfl, rfl⟩

theorem sameRoster_stopFromUp (s : Instance) : SameRoster s s.stopFromUp := by
  unfold Instance.stopFromUp
  split
  · exact sameRoster_setStateLocked _ _ s
  · exact SameRoster.refl s

theorem sameRoster_comesUp (timedOut : Bool) (s : Instance) :
    SameRoster s (if s.state = .starting then s.enterRunningLocked timedOut else s) := by
  split
  · exact sameRoster_setStateLocked _ _ s
  · exact SameRoster.refl s

theorem Section.sameRoster_run {s : Instance} {sec : Section} (h : sec.RosterSettled s)
    (now : Int) : SameRoster s (sec.run now s).1 := by
  cases sec with
  | playerUUID name uuid =>
    obtain ⟨sess, hsess, rfl⟩ := h
    exact sameRoster_recordPlayerField hsess rfl
  | playerIP name ip =>
    obtain ⟨sess, hsess, rfl⟩ := h
    exact sameRoster_recordPlayerField hsess rfl
  | playerJoined name =>
    exact fun other => ⟨lookup_insert_same h.1 other, lookup_erase_none h.2 other⟩
  | playerLeft name =>
    exact fun other => ⟨lookup_erase_none h.1 other, lookup_erase_none h.2 other⟩
  | serverStop => exact sameRoster_stopFromUp { s with expectedStop := true }
  | serverCrash => exact sameRoster_stopFromUp { s with crashed := true }
  | serverReady => exact sameRoster_comesUp false s
  | armExitDeadline =>
    change SameRoster s (if s.armable then { s with deadlineArmed := true } else s)
    split <;> exact SameRoster.refl s
  | _ => exact SameRoster.refl s

/-- No other step of a routine touches the roster, but for the teardown. -/
theorem Routine.Step.sameRoster {r r' : Routine} {s s' : Instance} {new : List Routine}
    (h : Routine.Step parseIP r s r' s' new)
    (hsettled : ∀ boot sec todo, r = .streamOutput boot (sec :: todo) → sec.RosterSettled s)
    (hclears : ∀ boot code, r ≠ .waitForExit boot (.reaped code)) : SameRoster s s' := by
  cases h with
  | start outcome =>
    unfold Instance.start
    split
    · exact SameRoster.refl s
    · cases outcome with
      | boots => exact sameRoster_setStateLocked .starting false _
      | _ => exact SameRoster.refl s
  | stop grace =>
    unfold Instance.stop
    split
    · exact sameRoster_setStateLocked .stopping false _
    · exact SameRoster.refl s
  | forceStop =>
    unfold Instance.forceStop
    split
    · exact sameRoster_setStateLocked .stopping false _
    · exact SameRoster.refl s
  | output boot sec todo now => exact Section.sameRoster_run (hsettled boot sec todo rfl) now
  | clear boot code => exact absurd rfl (hclears boot code)
  | record boot code => exact sameRoster_setStateLocked .offline false _
  | promote boot => exact sameRoster_comesUp true s
  | endStop boot =>
    unfold Instance.endStop
    split
    · exact sameRoster_setStateLocked .stopping false _
    · exact SameRoster.refl s
  | narrateExit boot stop crashed now =>
    cases exitNarration crashed stop <;> exact SameRoster.refl s
  | _ => exact SameRoster.refl s

/-! ## Late steps -/

/-- The teardown of a boot is past the point where it clears the roster. -/
def Routine.cleared : Routine → Bool
  | .waitForExit _ (.cleared _) | .waitForExit _ (.polled _) => true
  | _ => false

/-- The roster of the boot that runs has been cleared. -/
def RosterGone (c : Config Instance Routine) : Prop := ∃ r ∈ c.threads, r.cleared = true

/-- What a routine does after the exit of its boot is already done, and so is what its read loop
does to the roster once that has been cleared. -/
def LateHarmless (c : Config Instance Routine) : Routine → Prop
  | .streamOutput boot (sec :: _) =>
    (Late boot c.shared.flags → sec.Settled c.shared.flags) ∧
      (Late boot c.shared.flags ∨ RosterGone c → sec.RosterSettled c.shared)
  | .watchStarting boot => Late boot c.shared.flags → c.shared.state ≠ .starting
  | .watchExitDeadline boot => Late boot c.shared.flags → c.shared.exited ≠ boot
  | _ => True

theorem LateHarmless.inTime {c : Config Instance Routine} {r : Routine} (h : LateHarmless c r) :
    DeadlineInTime c r := by
  rintro boot rfl hcurrent
  cases hr : c.shared.running with
  | true => rfl
  | false =>
    refine absurd hcurrent (h fun hlive => ?_)
    rw [show c.shared.flags.running = false from hr] at hlive
    cases hlive.1

section

variable {id : String} {trace : Trace Instance Routine} {c c' : Config Instance Routine}
  {r : Routine}

/-- A routine whose boot is over awaits no exit. -/
theorem awaitsExit_of_late {allowed : Config Instance Routine → Routine → Prop} {boot : Nat}
    (hrun : Run (lifecycle parseIP) allowed (newServerInstance id) trace c)
    (hmem : r ∈ c.threads) (hboot : r.boot? = some boot) (hlate : Late boot c.shared.flags) :
    r.awaitsExit = false := by
  by_contra hawaits
  obtain ⟨hcurrent, hrunning⟩ := awaited_current hrun hmem (by simpa using hawaits)
  rw [hboot] at hcurrent
  exact hlate ⟨hrunning, (Option.some.inj hcurrent).symm⟩

theorem flagsAfter_of_late {boot : Nat} (hboot : r.boot? = some boot)
    (hlate : Late boot c.shared.flags) (hharmless : LateHarmless c r)
    (hawaits : r.awaitsExit = false) : r.flagsAfter c.shared.flags = c.shared.flags := by
  cases r with
  | streamOutput boot' todo =>
    obtain rfl : boot' = boot := Option.some.inj hboot
    cases todo with
    | nil => rfl
    | cons sec todo => exact Section.flagsAfter_of_settled (hharmless.1 hlate)
  | waitForExit boot' phase => cases phase <;> first | rfl | cases hawaits
  | watchStarting boot' =>
    obtain rfl : boot' = boot := Option.some.inj hboot
    have hst : c.shared.flags.state.comesUp = c.shared.flags.state :=
      ServerState.comesUp_of_not_starting _ (hharmless hlate)
    simp only [Routine.flagsAfter, hst]
  | watchExitDeadline boot' =>
    obtain rfl : boot' = boot := Option.some.inj hboot
    exact if_neg (hharmless hlate)
  | _ => cases hboot

/-- A late step that finds everything done changes neither the lifecycle nor the marks of the
current boot, nor the roster. -/
theorem unchanged_of_late {allowed : Config Instance Routine → Routine → Prop} {boot : Nat}
    (hrun : Run (lifecycle parseIP) allowed (newServerInstance id) trace c)
    (hboot : r.boot? = some boot) (hlate : Late boot c.shared.flags) (hharmless : LateHarmless c r)
    (hact : Acts (lifecycle parseIP) c r c') :
    c'.shared.flags = c.shared.flags ∧ SameRoster c.shared c'.shared := by
  have hawaits := awaitsExit_of_late hrun hact.mem hboot hlate
  obtain ⟨r', new, hstep, -⟩ := hact.exists_step
  refine ⟨?_, hstep.sameRoster ?_ ?_⟩
  · rw [hstep.flags]
    exact flagsAfter_of_late hboot hlate hharmless hawaits
  · rintro boot' sec todo rfl
    obtain rfl : boot' = boot := Option.some.inj hboot
    exact hharmless.2 (.inl hlate)
  · rintro boot' code rfl
    cases hawaits

/-! ## The roster -/

def RosterEmpty (s : Instance) : Prop :=
  ∀ name, s.players.lookup name = none ∧ s.presession.lookup name = none

theorem SameRoster.empty {s s' : Instance} (h : SameRoster s s') (hempty : RosterEmpty s) :
    RosterEmpty s' := by
  intro name
  rw [(h name).1, (h name).2]
  exact hempty name

theorem rosterEmpty_clearRoster (s : Instance) : RosterEmpty s.clearRoster := fun _ => ⟨rfl, rfl⟩

theorem cleared_of_boot?_eq_none (h : r.boot? = none) : r.cleared = false := by
  cases r <;> first | rfl | cases h

/-- Only the teardown itself gets past clearing the roster. -/
theorem Routine.Step.cleared {r r' : Routine} {s s' : Instance} {new : List Routine}
    (h : Routine.Step parseIP r s r' s' new) (hcleared : r'.cleared = true) :
    r.cleared = true ∨ ∃ boot code, r = .waitForExit boot (.reaped code) := by
  cases h with
  | stop grace =>
    rw [cleared_of_boot?_eq_none (boot?_afterStop grace s)] at hcleared
    cases hcleared
  | forceStop =>
    rw [cleared_of_boot?_eq_none (boot?_afterForceStop s)] at hcleared
    cases hcleared
  | promote boot =>
    rw [cleared_of_boot?_eq_none (boot?_afterPromote s)] at hcleared
    cases hcleared
  | endStop boot =>
    rw [cleared_of_boot?_eq_none (boot?_afterEndStop boot s)] at hcleared
    cases hcleared
  | clear boot code => exact .inr ⟨boot, code, rfl⟩
  | stopPoll boot code => exact .inl rfl
  | _ => cases hcleared

theorem Routine.Step.new_cleared {r r' : Routine} {s s' : Instance} {new : List Routine}
    (h : Routine.Step parseIP r s r' s' new) : ∀ u ∈ new, u.cleared = false := by
  cases h with
  | start outcome =>
    intro u hu
    split at hu
    · simp only [bootRoutines, List.mem_cons, List.not_mem_nil, or_false] at hu
      rcases hu with rfl | rfl | rfl | rfl <;> rfl
    · cases hu
  | output boot sec todo now =>
    intro u hu
    cases sec with
    | armExitDeadline =>
      simp only [Section.spawns] at hu
      split at hu
      · obtain rfl := List.mem_singleton.1 hu
        rfl
      · cases hu
    | _ => cases hu
  | _ =>
    intro u hu
    cases hu

theorem RosterGone.of_act (hact : Acts (lifecycle parseIP) c r c')
    (hclears : ∀ boot code, r ≠ .waitForExit boot (.reaped code)) (hgone : RosterGone c') :
    RosterGone c := by
  obtain ⟨r', new, hstep, hmem⟩ := hact.exists_step
  obtain ⟨u, hu, hcleared⟩ := hgone
  rcases hmem u hu with hthere | rfl | hnew
  · exact ⟨u, hthere, hcleared⟩
  · rcases hstep.cleared hcleared with hr | ⟨boot, code, rfl⟩
    · exact ⟨r, hact.mem, hr⟩
    · exact absurd rfl (hclears boot code)
  · rw [hstep.new_cleared u hnew] at hcleared
    cases hcleared

/-- An instance goes down by the teardown only. -/
theorem Routine.flagsAfter_down {f : Flags} (h : (r.flagsAfter f).running = false) :
    f.running = false ∨ r.cleared = true := by
  cases r with
  | start outcome =>
    cases hr : f.running with
    | true =>
      simp only [Routine.flagsAfter, hr, if_true] at h
      cases h
    | false => exact .inl rfl
  | stop grace =>
    refine .inl ?_
    simp only [Routine.flagsAfter] at h
    split at h <;> exact h
  | forceStop =>
    refine .inl ?_
    simp only [Routine.flagsAfter] at h
    split at h <;> exact h
  | streamOutput boot todo =>
    cases todo with
    | nil => exact .inl h
    | cons sec todo => exact .inl ((sec.flagsAfter_running f).symm.trans h)
  | waitForExit boot phase => cases phase <;> first | exact .inr rfl | exact .inl h
  | watchExitDeadline boot =>
    refine .inl ?_
    simp only [Routine.flagsAfter] at h
    split at h <;> exact h
  | _ => exact .inl h

/-- Nobody is on the roster once it has been cleared, until the next boot. -/
def RosterKept (c : Config Instance Routine) : Prop :=
  c.shared.running = false ∨ RosterGone c → RosterEmpty c.shared

theorem RosterKept.act (h : RosterKept c) (hharmless : LateHarmless c r)
    (hact : Acts (lifecycle parseIP) c r c') : RosterKept c' := by
  intro hover
  obtain ⟨r', new, hstep, -⟩ := hact.exists_step
  by_cases hclears : ∃ boot code, r = .waitForExit boot (.reaped code)
  · obtain ⟨boot, code, rfl⟩ := hclears
    generalize c'.shared = s' at hstep ⊢
    cases hstep
    exact rosterEmpty_clearRoster _
  · have hclears : ∀ boot code, r ≠ .waitForExit boot (.reaped code) := fun boot code heq =>
      hclears ⟨boot, code, heq⟩
    have hbefore : c.shared.running = false ∨ RosterGone c := by
      rcases hover with hdown | hgone
      · have hflags := congrArg Flags.running hstep.flags
        rcases Routine.flagsAfter_down (hflags.symm.trans hdown) with hdown' | hcleared
        · exact .inl hdown'
        · exact .inr ⟨r, hact.mem, hcleared⟩
      · exact .inr (hgone.of_act hact hclears)
    refine (hstep.sameRoster ?_ hclears).empty (h hbefore)
    rintro boot sec todo rfl
    refine hharmless.2 (hbefore.imp_left fun hdown hlive => ?_)
    exact absurd hlive.1 (by rw [show c.shared.flags.running = false from hdown]; decide)

theorem rosterKept (hrun : Run (lifecycle parseIP) LateHarmless (newServerInstance id) trace c) :
    RosterKept c := by
  induction hrun with
  | nil => exact fun _ name => ⟨rfl, rfl⟩
  | call hrun r hr ih =>
    rintro (hdown | ⟨u, hu, hcleared⟩)
    · exact ih (.inl hdown)
    · rcases List.mem_append.1 hu with hold | hnew
      · exact ih (.inr ⟨u, hold, hcleared⟩)
      · obtain rfl := List.mem_singleton.1 hnew
        have hcall : u.isCall = true := hr
        cases u <;> first | cases hcleared | cases hcall
  | act hrun hharmless hact ih => exact ih.act hharmless hact

/-! ## What a boot is classified by -/

/-- A step by which a boot says that it has crashed. -/
def MarksCrash (boot : Nat) (e : Instance × Routine) : Prop :=
  ∃ todo, e.2 = .streamOutput boot (.serverCrash :: todo)

/-- A step by which the exit of a boot is expected: its own output or deadline, or a stop of the
running instance. -/
def MarksStop (boot : Nat) (e : Instance × Routine) : Prop :=
  (∃ todo, e.2 = .streamOutput boot (.serverStop :: todo)) ∨ e.2 = .watchExitDeadline boot ∨
    (e.1.running = true ∧ e.1.exited = boot ∧ (e.2 = .forceStop ∨ ∃ grace, e.2 = .stop grace))

theorem Section.flagsAfter_crashed (f : Flags) (sec : Section) :
    (sec.flagsAfter f).crashed = true ↔ f.crashed = true ∨ sec = .serverCrash := by
  cases sec <;> simp [Section.flagsAfter]

theorem Section.flagsAfter_expectedStop (f : Flags) (sec : Section) :
    (sec.flagsAfter f).expectedStop = true ↔ f.expectedStop = true ∨ sec = .serverStop := by
  cases sec <;> simp [Section.flagsAfter]

/-- A section of a read loop marks the current boot, if that is its own. -/
private theorem flagsAfter_output {boot : Nat} {sec : Section} {todo : List Section}
    (hharmless : LateHarmless c (.streamOutput boot (sec :: todo))) :
    c.shared.exited = boot ∨ sec.flagsAfter c.shared.flags = c.shared.flags := by
  refine (em (c.shared.exited = boot)).imp_right fun hboot => ?_
  exact Section.flagsAfter_of_settled (hharmless.1 fun hlive => hboot hlive.2)

private theorem crashed_kept {f : Flags} (hrunning : f.running = true)
    (hne : ∀ boot sec todo, r ≠ .streamOutput boot (sec :: todo)) :
    (r.flagsAfter f).crashed = f.crashed := by
  cases r with
  | streamOutput boot todo =>
    cases todo with
    | nil => rfl
    | cons sec todo => exact absurd rfl (hne boot sec todo)
  | waitForExit boot phase => cases phase <;> rfl
  | watchExitDeadline boot =>
    simp only [Routine.flagsAfter]
    split <;> rfl
  | _ => simp [Routine.flagsAfter, hrunning]

private theorem marksCrash_output {k boot : Nat} {s : Instance} {sec : Section}
    {todo : List Section} : MarksCrash k (s, .streamOutput boot (sec :: todo)) ↔
      boot = k ∧ sec = .serverCrash := by
  simp [MarksCrash]

private theorem marksStop_output {k boot : Nat} {s : Instance} {sec : Section}
    {todo : List Section} : MarksStop k (s, .streamOutput boot (sec :: todo)) ↔
      boot = k ∧ sec = .serverStop := by
  simp [MarksStop]

/-- A step during a boot marks it as crashed exactly if its own output says so. -/
theorem crashed_flagsAfter (hrunning : c.shared.running = true) (hharmless : LateHarmless c r) :
    (r.flagsAfter c.shared.flags).crashed = true ↔
      c.shared.crashed = true ∨ MarksCrash c.shared.exited (c.shared, r) := by
  by_cases houtput : ∃ boot sec todo, r = .streamOutput boot (sec :: todo)
  · obtain ⟨boot, sec, todo, rfl⟩ := houtput
    have hmarks : (sec.flagsAfter c.shared.flags).crashed = true ↔
      c.shared.crashed = true ∨ sec = .serverCrash := sec.flagsAfter_crashed c.shared.flags
    rw [marksCrash_output]
    rcases flagsAfter_output hharmless with rfl | hsame
    · simpa [Routine.flagsAfter] using hmarks
    · rw [Routine.flagsAfter]
      rw [hsame] at hmarks ⊢
      exact ⟨.inl, fun h => h.elim id fun hown => hmarks.2 (.inr hown.2)⟩
  · rw [crashed_kept hrunning fun boot sec todo h => houtput ⟨boot, sec, todo, h⟩, or_iff_left]
    · rfl
    · rintro ⟨todo, htodo⟩
      exact houtput ⟨_, _, todo, htodo⟩

/-- A step during a boot makes its exit an expected one exactly if it is one of those that do. -/
theorem expectedStop_flagsAfter (hrunning : c.shared.running = true)
    (hharmless : LateHarmless c r) :
    (r.flagsAfter c.shared.flags).expectedStop = true ↔
      c.shared.expectedStop = true ∨ MarksStop c.shared.exited (c.shared, r) := by
  have hflags : c.shared.flags.running = true := hrunning
  have hstop : c.shared.flags.expectedStop = c.shared.expectedStop := rfl
  cases r with
  | streamOutput boot todo =>
    cases todo with
    | nil => simp [MarksStop, Routine.flagsAfter, hstop]
    | cons sec todo =>
      have hmarks : (sec.flagsAfter c.shared.flags).expectedStop = true ↔
        c.shared.expectedStop = true ∨ sec = .serverStop :=
          sec.flagsAfter_expectedStop c.shared.flags
      rw [marksStop_output]
      rcases flagsAfter_output hharmless with rfl | hsame
      · simpa [Routine.flagsAfter] using hmarks
      · rw [Routine.flagsAfter]
        rw [hsame] at hmarks ⊢
        exact ⟨.inl, fun h => h.elim id fun hown => hmarks.2 (.inr hown.2)⟩
  | waitForExit boot phase =>
    cases phase <;> simp [MarksStop, Routine.flagsAfter, hstop]
  | watchExitDeadline boot =>
    by_cases hboot : c.shared.exited = boot
    · have hcurrent : c.shared.flags.exited = boot := hboot
      simp [MarksStop, Routine.flagsAfter, hcurrent, hboot]
    · have hcurrent : ¬ c.shared.flags.exited = boot := hboot
      simp [MarksStop, Routine.flagsAfter, hcurrent, hstop, Ne.symm hboot]
  | _ => simp [MarksStop, Routine.flagsAfter, hflags, hstop, hrunning]

/-- The steps of a run are of boots that have been. -/
theorem trace_known {allowed : Config Instance Routine → Routine → Prop}
    (hrun : Run (lifecycle parseIP) allowed (newServerInstance id) trace c) :
    ∀ e ∈ trace, e.1.exited ≤ c.shared.exited ∧
      ∀ boot, e.2.boot? = some boot → boot ≤ c.shared.exited := by
  induction hrun with
  | nil => exact fun e he => nomatch he
  | call hrun r hr ih => exact ih
  | @act trace c c' r hrun hallowed hact ih =>
    obtain ⟨r', new, hstep, -⟩ := hact.exists_step
    have hle : c.shared.exited ≤ c'.shared.exited := by
      rw [show c'.shared.exited = (r.flagsAfter c.shared.flags).exited from
        congrArg Flags.exited hstep.flags]
      rcases r.flagsAfter_exited c.shared.flags with h | ⟨-, h⟩
      · exact h.ge
      · exact h ▸ Nat.le_succ _
    intro e he
    rcases List.mem_cons.1 he with rfl | hold
    · exact ⟨hle, fun boot hboot => ((bootsKnown hrun).le r hact.mem boot hboot).trans hle⟩
    · exact ⟨(ih e hold).1.trans hle, fun boot hboot => ((ih e hold).2 boot hboot).trans hle⟩

/-- The marks of a running boot are those of its own steps. -/
def Classified (trace : Trace Instance Routine) (s : Instance) : Prop :=
  s.running = true →
    (s.crashed = true ↔ ∃ e ∈ trace, MarksCrash s.exited e) ∧
      (s.expectedStop = true ↔ ∃ e ∈ trace, MarksStop s.exited e)

/-- Nothing marks a boot before it begins. -/
private theorem not_marks_next {allowed : Config Instance Routine → Routine → Prop}
    (hrun : Run (lifecycle parseIP) allowed (newServerInstance id) trace c)
    (e : Instance × Routine) (he : e ∈ (c.shared, Routine.start .boots) :: trace) :
    ¬ MarksCrash (c.shared.exited + 1) e ∧ ¬ MarksStop (c.shared.exited + 1) e := by
  rcases List.mem_cons.1 he with rfl | hold
  · simp [MarksCrash, MarksStop]
  · obtain ⟨hexited, hboots⟩ := trace_known hrun e hold
    have hnot : ∀ boot, e.2.boot? = some boot → boot ≠ c.shared.exited + 1 := fun boot hboot =>
      (Nat.lt_succ_of_le (hboots boot hboot)).ne
    constructor
    · rintro ⟨todo, htodo⟩
      exact hnot _ (by rw [htodo]; rfl) rfl
    · rintro (⟨todo, htodo⟩ | hdeadline | ⟨-, hcurrent, -⟩)
      · exact hnot _ (by rw [htodo]; rfl) rfl
      · exact hnot _ (by rw [hdeadline]; rfl) rfl
      · omega

theorem classified (hrun : Run (lifecycle parseIP) LateHarmless (newServerInstance id) trace c) :
    Classified trace c.shared := by
  induction hrun with
  | nil => exact fun hup => nomatch hup
  | call hrun r hr ih => exact ih
  | @act trace c c' r hrun hharmless hact ih =>
    obtain ⟨r', new, hstep, -⟩ := hact.exists_step
    have hflags := hstep.flags
    have hcrashed : c'.shared.crashed = (r.flagsAfter c.shared.flags).crashed :=
      congrArg Flags.crashed hflags
    have hstop : c'.shared.expectedStop = (r.flagsAfter c.shared.flags).expectedStop :=
      congrArg Flags.expectedStop hflags
    have hexited : c'.shared.exited = (r.flagsAfter c.shared.flags).exited :=
      congrArg Flags.exited hflags
    intro hup
    rw [hcrashed, hstop, hexited]
    cases hrunning : c.shared.running with
    | true =>
      have hsame : (r.flagsAfter c.shared.flags).exited = c.shared.exited := by
        rcases r.flagsAfter_exited c.shared.flags with h | ⟨hdown, -⟩
        · exact h
        · rw [show c.shared.flags.running = true from hrunning] at hdown
          cases hdown
      obtain ⟨ihcrashed, ihstop⟩ := ih hrunning
      rw [hsame, crashed_flagsAfter hrunning hharmless, expectedStop_flagsAfter hrunning hharmless,
        ihcrashed, ihstop]
      simp only [List.exists_mem_cons_iff, or_comm, and_self]
    | false =>
      obtain ⟨rfl, hbegins⟩ := start_of_up (f := c.shared.flags) hrunning
        ((congrArg Flags.running hflags).symm.trans hup)
      rw [hbegins]
      constructor
      · refine iff_of_false Bool.false_ne_true ?_
        rintro ⟨e, he, hmark⟩
        exact (not_marks_next hrun e he).1 hmark
      · refine iff_of_false Bool.false_ne_true ?_
        rintro ⟨e, he, hmark⟩
        exact (not_marks_next hrun e he).2 hmark

/-! ## Every run -/

/-- The boots of an instance keep apart in a state that a run has reached. -/
structure BootsApart (parseIP : String → Option String) (trace : Trace Instance Routine)
    (c : Config Instance Routine) : Prop where
  /-- A late step leaves the lifecycle, the marks and the roster as they are. -/
  late : ∀ r c' boot, r.boot? = some boot → Late boot c.shared.flags → LateHarmless c r →
    Acts (lifecycle parseIP) c r c' →
      c'.shared.flags = c.shared.flags ∧ SameRoster c.shared c'.shared
  /-- Nobody is on the roster of a server that is offline. -/
  offline : c.shared.state = .offline → RosterEmpty c.shared
  /-- A boot begins with an empty roster and without marks. -/
  begins : ∀ r c', Acts (lifecycle parseIP) c r c' → c.shared.running = false →
    c'.shared.running = true → RosterEmpty c'.shared ∧
      c'.shared.flags = ⟨true, c.shared.exited + 1, .starting, false, false, false⟩
  /-- A running boot has the marks its own steps have made. -/
  classified : Classified trace c.shared

/-- In every run in which late steps find done what they do, the boots keep apart. -/
theorem bootsApart_of_lateHarmless
    (hrun : Run (lifecycle parseIP) LateHarmless (newServerInstance id) trace c) :
    BootsApart parseIP trace c where
  late r c' boot hboot hlate hharmless hact := unchanged_of_late hrun hboot hlate hharmless hact
  offline hoff :=
    rosterKept hrun (.inl ((coherent_of_inTime (hrun.mono fun _ _ => LateHarmless.inTime)).2 hoff))
  begins r c' hact hdown hup := by
    obtain ⟨r', new, hstep, -⟩ := hact.exists_step
    obtain ⟨rfl, hbegins⟩ := start_of_up (f := c.shared.flags) hdown
      ((congrArg Flags.running hstep.flags).symm.trans hup)
    refine ⟨(hstep.sameRoster (fun _ _ _ h => nomatch h) fun _ _ h => nomatch h).empty ?_,
      hstep.flags.trans hbegins⟩
    exact rosterKept hrun (.inl hdown)
  classified := classified hrun

end

/-- A server whose process has exited. -/
theorem bootsApart_of_lateHarmless_exited : ∃ trace c,
    Run (lifecycle fun _ => none) LateHarmless (newServerInstance "s1") trace c ∧
      c.shared.exited = 1 ∧ c.shared.state = .offline ∧ BootsApart (fun _ => none) trace c := by
  have hbegin : Run (lifecycle fun _ => none) LateHarmless (newServerInstance "s1") [] _ := .nil
  have hstart := (hbegin.call (.start .boots) rfl).actAt [] [] rfl trivial (.start .boots)
  have hreap := hstart.actAt [.returned, .streamOutput 1 [], .streamOutput 1 []]
    [.watchStarting 1] rfl trivial (.reap 1 0)
  have hclear := hreap.actAt [.returned, .streamOutput 1 [], .streamOutput 1 []]
    [.watchStarting 1] rfl trivial (.clear 1 0)
  have hpolled := hclear.actAt [.returned, .streamOutput 1 [], .streamOutput 1 []]
    [.watchStarting 1] rfl trivial (.stopPoll 1 0)
  have hrecord := hpolled.actAt [.returned, .streamOutput 1 [], .streamOutput 1 []]
    [.watchStarting 1] rfl trivial (.record 1 0)
  exact ⟨_, _, hrecord, rfl, rfl, bootsApart_of_lateHarmless hrecord⟩

/-! ## A join that is read late -/

/-- A player joins. -/
def joinLine : String := "[12:00:00] [Server thread/INFO]: Alex joined the game"

theorem lineSections_joinLine :
    lineSections (fun _ => none) joinLine = [.console joinLine, .playerJoined "Alex"] := by
  decide +kernel

/-- A join line is read before the process exits and entered after the exit has been recorded. -/
theorem not_bootsApart_lateJoin :
    ¬ ∀ trace c, Run (lifecycle fun _ => none) Unrestricted (newServerInstance "s1") trace c →
      c.shared.state = .offline → RosterEmpty c.shared := by
  intro h
  have hbegin : Run (lifecycle fun _ => none) Unrestricted (newServerInstance "s1") [] _ := .nil
  have hstart := (hbegin.call (.start .boots) rfl).actAt [] [] rfl trivial (.start .boots)
  have hscan := hstart.actAt [.returned] [.streamOutput 1 [], .waitForExit 1 .waiting,
    .watchStarting 1] rfl trivial (.scan 1 joinLine)
  rw [lineSections_joinLine] at hscan
  have hconsole := hscan.actAt [.returned] [.streamOutput 1 [], .waitForExit 1 .waiting,
    .watchStarting 1] rfl trivial (.output 1 (.console joinLine) [.playerJoined "Alex"] 0)
  have hreap := hconsole.actAt [.returned, .streamOutput 1 [.playerJoined "Alex"],
    .streamOutput 1 []] [.watchStarting 1] rfl trivial (.reap 1 0)
  have hclear := hreap.actAt [.returned, .streamOutput 1 [.playerJoined "Alex"],
    .streamOutput 1 []] [.watchStarting 1] rfl trivial (.clear 1 0)
  have hpolled := hclear.actAt [.returned, .streamOutput 1 [.playerJoined "Alex"],
    .streamOutput 1 []] [.watchStarting 1] rfl trivial (.stopPoll 1 0)
  have hrecord := hpolled.actAt [.returned, .streamOutput 1 [.playerJoined "Alex"],
    .streamOutput 1 []] [.watchStarting 1] rfl trivial (.record 1 0)
  have hjoin := hrecord.actAt [.returned] [.streamOutput 1 [],
    .waitForExit 1 (.recorded ⟨false, 0⟩ false), .watchStarting 1] rfl trivial
    (.output 1 (.playerJoined "Alex") [] 0)
  have hempty := (h _ _ hjoin rfl "Alex").1
  rw [show AList.lookup "Alex" _ = some (⟨"", ""⟩ : PlayerSession) from AList.lookup_insert _] at hempty
  cases hempty

end Konnekt.Server
