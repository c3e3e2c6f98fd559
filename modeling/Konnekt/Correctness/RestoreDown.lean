import Konnekt.Backup.Operations
import Konnekt.Correctness.PowerGate

/-!
# Restores under a stopped server

A restore has seen its server down before it moves the first folder. That it is
still down then, and stays down, rests on nobody starting it in between: the claim
keeps other backups and restores away, but not a start.
-/

namespace Konnekt.Backup

open Go Threads Server

variable {parseIP : String → Option String} {c c' : Config Machine Party} {p : Party}
  {trace : Trace Machine Party}

/-- A restore has seen its server down and has not returned. -/
def RestorePhase.underway : RestorePhase → Bool
  | .check | .returned => false
  | _ => true

/-- A restore has moved a folder and has not returned. -/
def RestorePhase.movedAny : RestorePhase → Bool
  | .swap moved => decide (0 < moved)
  | .release => true
  | _ => false

/-- No server is started while a restore of it is under way. -/
def NoStart (c : Config Machine Party) (p : Party) : Prop :=
  ∀ h id prev, p = .service (.power h (.boot id prev)) →
    ∀ phase, .restore id phase ∈ c.threads → phase.underway = false

/-- The servers of the restores under way are down. -/
def RestoresDown (c : Config Machine Party) : Prop :=
  ∀ id phase, .restore id phase ∈ c.threads → phase.underway = true →
    c.shared.service.isRunning id = false

/-- A restore leaves the servers as they are. -/
theorem RestoreStep.isRunning {id : String} {phase phase' : RestorePhase} {m m' : Machine}
    (hstep : RestoreStep id phase m phase' m') (x : String) :
    m'.service.isRunning x = m.service.isRunning x := by
  cases hstep with
  | check =>
    unfold Service.isRunning
    rw [Service.instanceOf_instanceFor]
  | _ => rfl

/-- A restore gets under way by seeing its server down. -/
theorem RestoreStep.underway {id : String} {phase phase' : RestorePhase} {m m' : Machine}
    (hstep : RestoreStep id phase m phase' m') (h : phase'.underway = true) :
    phase.underway = true ∨ m.service.isRunning id = false := by
  cases hstep with
  | check =>
    cases hrunning : m.service.isRunning id with
    | true =>
      rw [hrunning] at h
      cases h
    | false => exact .inr rfl
  | checkFails => cases h
  | _ => exact .inl rfl

/-- A step of anyone starts a server only if it is a boot of it. -/
theorem Party.Step.isRunning {p' : Party} {m m' : Machine} {new : List Party}
    (hstep : Party.Step parseIP p m p' m' new) {x : String}
    (hx : m'.service.isRunning x = true) :
    m.service.isRunning x = true ∨ ∃ h prev, p = .service (.power h (.boot x prev)) := by
  cases hstep with
  | service hactor =>
    rcases hactor.isRunning hx with hup | ⟨h, prev, rfl⟩
    · exact .inl hup
    · exact .inr ⟨h, prev, rfl⟩
  | restore id hrestore => exact .inl ((hrestore.isRunning x).symm.trans hx)
  | backup id hbackup => cases hbackup <;> exact .inl hx

/-- A restore is there after a step if it was, or if it is what acted. -/
theorem Party.Step.restore_of_new {p' : Party} {m m' : Machine} {new : List Party}
    (hstep : Party.Step parseIP p m p' m' new) {id : String} {phase : RestorePhase}
    (hmem : .restore id phase = p' ∨ .restore id phase ∈ new) :
    ∃ before, p = .restore id before ∧ RestoreStep id before m phase m' := by
  cases hstep with
  | service hactor =>
    rcases hmem with heq | hnew
    · cases heq
    · obtain ⟨a, -, ha⟩ := List.mem_map.1 hnew
      cases ha
  | restore id' hrestore =>
    rcases hmem with heq | hnew
    · cases heq
      exact ⟨_, rfl, hrestore⟩
    · cases hnew
  | backup id' hbackup =>
    rcases hmem with heq | hnew
    · cases heq
    · cases hnew

theorem RestoresDown.act (h : RestoresDown c) (hnostart : NoStart c p)
    (hact : Acts (machine parseIP) c p c') : RestoresDown c' := by
  obtain ⟨p', new, hstep, hmem⟩ := hact.exists_step
  -- A restore that was under way keeps its server down, as nobody starts it now.
  have hkept : ∀ id phase, .restore id phase ∈ c.threads → phase.underway = true →
      c'.shared.service.isRunning id = false := by
    intro id phase hthere hunderway
    rw [Bool.eq_false_iff]
    intro hup
    rcases hstep.isRunning hup with hbefore | ⟨hold, prev, rfl⟩
    · rw [h id phase hthere hunderway] at hbefore
      cases hbefore
    · rw [hnostart hold id prev rfl phase hthere] at hunderway
      cases hunderway
  intro id phase hin hunderway
  rcases hmem _ hin with hthere | hnew
  · exact hkept id phase hthere hunderway
  · obtain ⟨before, rfl, hrestore⟩ := hstep.restore_of_new hnew
    rcases hrestore.underway hunderway with hbefore | hdown
    · exact hkept id before hact.mem hbefore
    · rw [hrestore.isRunning, hdown]

theorem restoresDown (hrun : Run (machine parseIP) NoStart machineDown trace c) :
    RestoresDown c := by
  induction hrun with
  | nil => exact fun id phase hmem => nomatch hmem
  | call hrun p hp ih =>
    intro id phase hmem hunderway
    rcases List.mem_append.1 hmem with hold | hnew
    · exact ih id phase hold hunderway
    · obtain rfl := List.mem_singleton.1 hnew
      rcases hp with ⟨action, heq⟩ | ⟨id', heq⟩ | ⟨id', heq⟩ <;> cases heq
      cases hunderway
  | act hrun hnostart hact ih => exact ih.act hnostart hact

/-- In every run in which nobody starts a server while a restore of it is under way, the server is
down from the first folder moved until the restore returns. -/
theorem restore_down_of_noStart (hrun : Run (machine parseIP) NoStart machineDown trace c)
    {id : String} {phase : RestorePhase} (hmem : .restore id phase ∈ c.threads)
    (hmoved : phase.movedAny = true) : c.shared.service.isRunning id = false := by
  refine restoresDown hrun id phase hmem ?_
  cases phase <;> first | rfl | cases hmoved

/-! ## A start during the extraction -/

/-- A restore on its own moves a folder. -/
theorem restore_down_of_noStart_moved : ∃ trace c,
    Run (machine fun _ => none) NoStart machineDown trace c ∧
      c.threads = [.restore "s1" (.swap 1)] ∧ c.shared.service.isRunning "s1" = false := by
  have hquiet : ∀ c phase, NoStart c (.restore "s1" phase) := fun c phase h id prev heq => by
    cases heq
  have hbegin : Run (machine fun _ => none) NoStart machineDown [] _ := .nil
  have hcheck := (hbegin.call (.restore "s1" .check) (.inr (.inl ⟨_, rfl⟩))).actAt [] [] rfl
    (hquiet _ _) (.restore "s1" .check)
  have hlookup := hcheck.actAt [] [] rfl (hquiet _ _) (.restore "s1" .lookup)
  have hclaim := hlookup.actAt [] [] rfl (hquiet _ _) (.restore "s1" .claim)
  have hextract := hclaim.actAt [] [] rfl (hquiet _ _) (.restore "s1" .extract)
  have hmove := hextract.actAt [] [] rfl (hquiet _ _) (.restore "s1" (.move 0))
  exact ⟨_, _, hmove, rfl, restore_down_of_noStart hmove (List.mem_singleton_self _) rfl⟩

/-- The server is started while a restore of it extracts the archive, and is running when the
restore moves the first folder. -/
theorem not_restore_down_started :
    ¬ ∀ trace c, Run (machine fun _ => none) Unrestricted machineDown trace c →
      ∀ id phase, .restore id phase ∈ c.threads → phase.movedAny = true →
        c.shared.service.isRunning id = false := by
  intro h
  have hbegin : Run (machine fun _ => none) Unrestricted machineDown [] _ := .nil
  have hcheck := (hbegin.call (.restore "s1" .check) (.inr (.inl ⟨_, rfl⟩))).actAt [] [] rfl
    trivial (.restore "s1" .check)
  have hlookup := hcheck.actAt [] [] rfl trivial (.restore "s1" .lookup)
  have hclaim := hlookup.actAt [] [] rfl trivial (.restore "s1" .claim)
  have hextract := hclaim.actAt [] [] rfl trivial (.restore "s1" .extract)
  have henter := (hextract.call (.service (.power false (.enter (.start "s1"))))
    (.inl ⟨_, rfl⟩)).actAt [.restore "s1" (.swap 0)] [] rfl trivial (.service (.power (.enter _ rfl)))
  have hsnapshot := henter.actAt [.restore "s1" (.swap 0)] [] rfl trivial
    (.service (.power (.snapshot (.start "s1") ["s1", ""] (.refl _))))
  have hscan := hsnapshot.actAt [.restore "s1" (.swap 0)] [] rfl trivial
    (.service (.power (.scan (.start "s1") "s1" [""] [])))
  have hscan' := hscan.actAt [.restore "s1" (.swap 0)] [] rfl trivial
    (.service (.power (.scan (.start "s1") "" [] [])))
  have hscanned := hscan'.actAt [.restore "s1" (.swap 0)] [] rfl trivial
    (.service (.power (.scanned (.start "s1") [])))
  have hfind := hscanned.actAt [.restore "s1" (.swap 0)] [] rfl trivial
    (.service (.power (.find "s1")))
  have hcurrent := hfind.actAt [.restore "s1" (.swap 0)] [] rfl trivial
    (.service (.power (.claim "s1")))
  have hboot := hcurrent.actAt [.restore "s1" (.swap 0)] [] rfl trivial
    (.service (.power (.boot "s1" "" .boots)))
  have hmove := hboot.actAt [] _ rfl trivial (.restore "s1" (.move 0))
  have hdown := h _ _ hmove "s1" (.swap 1) List.mem_cons_self rfl
  cases hdown

end Konnekt.Backup
