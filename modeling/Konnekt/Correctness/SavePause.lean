import Konnekt.Backup.Operations

/-!
# Saves stay paused

While one operation copies the worlds of a running server, no other one may turn
its saves on. Among backups the claim sees to that. A duplication takes none, so
what it does is safe as long as it does not overlap another operation.
-/

namespace Konnekt.Backup

open Go Threads

variable {up : String → Bool} {id : String} {c c' : Config Saves Operation} {op : Operation}
  {allowed : Config Saves Operation → Operation → Prop} {trace : Trace Saves Operation}

/-! ## The claim -/

/-- A server is claimed. -/
def Saves.claimed (id : String) (s : Saves) : Bool := Backup.claimed id s.busy

/-- Between the claim and the release of it. -/
def OperationPhase.claimed : OperationPhase → Bool
  | .checks | .claim | .returned => false
  | _ => true

/-- A backup that has claimed its server. -/
def Operation.holdsClaim (id : String) (op : Operation) : Bool :=
  op.kind.claims && op.serverID == id && op.phase.claimed

/-- A step of an operation on another server leaves the claim as it is. -/
private theorem claimed_of_ne {kind : OperationKind} {server : String}
    {phase phase' : OperationPhase} {s s' : Saves} (hstep : kind.Step server phase s phase' s')
    (hne : id ≠ server) : s'.claimed id = s.claimed id := by
  cases hstep with
  | claim hclaims =>
    unfold Saves.claimed claim
    split
    · rfl
    · exact claimed_insert_ne hne _
  | release hclaims => exact claimed_release_ne hne _
  | _ => rfl

/-- A duplication leaves all claims as they are. -/
private theorem claimed_of_not_claims {kind : OperationKind} {server : String}
    {phase phase' : OperationPhase} {s s' : Saves} (hstep : kind.Step server phase s phase' s')
    (hkind : kind.claims = false) : s'.claimed id = s.claimed id := by
  cases hstep with
  | claim hclaims => rw [hkind] at hclaims; cases hclaims
  | release hclaims => rw [hkind] at hclaims; cases hclaims
  | _ => rfl

theorem balanced_claim (id : String) :
    Balanced operations (Saves.claimed id) (Operation.holdsClaim id) := by
  rintro ⟨kind, server, phase⟩ s op' s' new ⟨phase', hstep, rfl, rfl⟩ hheld
  dsimp only at hstep ⊢
  rw [List.countP_singleton, List.countP_singleton]
  by_cases hserver : server = id
  · subst hserver
    cases hkind : kind.claims with
    | false =>
      rw [claimed_of_not_claims hstep hkind]
      simp [Operation.holdsClaim, hkind]
    | true =>
      have hfirst : kind.first = .claim := if_pos hkind
      have hlast : kind.last = .release := if_pos hkind
      simp only [Operation.holdsClaim, hkind, beq_self_eq_true, Bool.true_and] at hheld ⊢
      cases hstep with
      | checksPass =>
        rw [hfirst]
        rfl
      | claim hclaims =>
        cases hbusy : s.claimed server with
        | true =>
          rw [claim, if_pos (beq_iff_eq.1 hbusy)]
          exact congrArg (fun b => Bool.toNat b + 0) hbusy.symm
        | false =>
          rw [claim, if_neg (beq_eq_false_iff_ne.1 hbusy)]
          simp only [if_true, Saves.claimed, claimed_insert_self]
          rfl
      | prepare => cases s.running server <;> rfl
      | saveOff ok => cases ok <;> rfl
      | saveAllFlush ok => cases ok <;> rfl
      | copied paused =>
        rw [hlast]
        cases paused <;> rfl
      | resume =>
        rw [hlast]
        cases s.running server <;> rfl
      | undo =>
        rw [hlast]
        rfl
      | saveOn =>
        rw [hlast]
        rfl
      | release hclaims =>
        rw [hheld rfl, Saves.claimed, claimed_release_self]
        rfl
      | _ => rfl
  · rw [claimed_of_ne hstep (Ne.symm hserver)]
    simp [Operation.holdsClaim, hserver]

/-! ## Pausing -/

/-- Saves may be paused and have not been resumed. -/
def OperationPhase.pauses : OperationPhase → Bool
  | .saveOff | .saveAllFlush | .undo | .copy true | .resume | .saveOn => true
  | _ => false

/-- An operation that may have paused the saves of a server and has not resumed them. -/
def Operation.pauses (id : String) (op : Operation) : Bool :=
  op.serverID == id && op.phase.pauses

/-- An operation that copies a server whose saves it has paused. -/
def Operation.copies (id : String) (op : Operation) : Prop :=
  op.serverID = id ∧ op.phase = .copy true

/-- A duplication does not pause saves while another operation has them paused, nor does another
while a duplication has. -/
def NoOverlap (c : Config Saves Operation) (op : Operation) : Prop :=
  op.phase = .prepare → ∀ others, c.threads.Perm (op :: others) → ∀ other ∈ others,
    other.pauses op.serverID = true → op.kind.claims = true ∧ other.kind.claims = true

/-- The saves of a running server are paused by one operation at a time. -/
def PausedOnce (id : String) (c : Config Saves Operation) : Prop :=
  c.threads.countP (Operation.pauses id) ≤ 1

theorem holdsClaim_of_pauses (h : op.pauses id = true) (hclaims : op.kind.claims = true) :
    op.holdsClaim id = true := by
  simp only [Operation.pauses, Operation.holdsClaim, Bool.and_eq_true] at h ⊢
  refine ⟨⟨hclaims, h.1⟩, ?_⟩
  obtain ⟨kind, server, phase⟩ := op
  cases phase <;> first | rfl | cases h.2

theorem OperationKind.pauses_first (kind : OperationKind) : kind.first.pauses = false := by
  cases kind <;> rfl

theorem OperationKind.pauses_last (kind : OperationKind) : kind.last.pauses = false := by
  cases kind <;> rfl

/-- An operation pauses saves when it has looked whether the server is running. -/
theorem OperationKind.Step.pauses {kind : OperationKind} {server : String}
    {phase phase' : OperationPhase} {s s' : Saves} (hstep : kind.Step server phase s phase' s')
    (h : phase'.pauses = true) : phase.pauses = true ∨ phase = .prepare := by
  cases hstep with
  | prepare => exact .inr rfl
  | checksPass => rw [kind.pauses_first] at h; cases h
  | claim hclaims => split at h <;> cases h
  | copied paused =>
    cases paused with
    | true => exact .inl rfl
    | false => rw [if_neg Bool.false_ne_true, kind.pauses_last] at h; cases h
  | saveOff ok => exact .inl rfl
  | saveAllFlush ok => exact .inl rfl
  | undo => exact .inl rfl
  | resume => exact .inl rfl
  | saveOn => exact .inl rfl
  | _ => cases h

theorem claimHeld {id : String} (hrun : Run operations allowed (noOperations up) trace c) :
    holders (Operation.holdsClaim id) c = (c.shared.claimed id).toNat := by
  refine hrun.holders_eq (balanced_claim id) ?_ rfl
  intro op hop
  simp [Operation.holdsClaim, show op.phase = .checks from hop, OperationPhase.claimed]

/-- No other operation has the saves of the server paused when one is about to. -/
theorem not_pauses_of_prepare {others : List Operation}
    (hheld : holders (Operation.holdsClaim op.serverID) c =
      (c.shared.claimed op.serverID).toNat)
    (hprepare : op.phase = .prepare) (hoverlap : NoOverlap c op)
    (hperm : c.threads.Perm (op :: others)) {other : Operation} (hmem : other ∈ others) :
    other.pauses op.serverID = false := by
  by_contra hpauses
  rw [Bool.not_eq_false] at hpauses
  obtain ⟨hop, hother⟩ := hoverlap hprepare others hperm other hmem hpauses
  have hholds : op.holdsClaim op.serverID = true := by
    simp [Operation.holdsClaim, hop, hprepare, OperationPhase.claimed]
  have hnot := not_holds_of_holds hheld hperm hholds hmem
  rw [holdsClaim_of_pauses hpauses hother] at hnot
  cases hnot

theorem PausedOnce.act (h : PausedOnce id c)
    (hheld : holders (Operation.holdsClaim id) c = (c.shared.claimed id).toNat)
    (hoverlap : NoOverlap c op) (hact : Acts operations c op c') : PausedOnce id c' := by
  obtain ⟨op', new, others, ⟨phase, hstep, rfl, rfl⟩, hbefore, hafter⟩ := hact.exists_others
  unfold PausedOnce at h ⊢
  rw [hbefore.countP_eq, List.countP_cons] at h
  rw [hafter.countP_eq, List.append_nil, List.countP_cons]
  by_cases hnow : Operation.pauses id { op with phase := phase } = true
  · have hserver : op.serverID = id := by
      simp only [Operation.pauses, Bool.and_eq_true, beq_iff_eq] at hnow
      exact hnow.1
    simp only [Operation.pauses, Bool.and_eq_true] at hnow
    rcases hstep.pauses hnow.2 with hpaused | hprepare
    · rw [if_pos (show op.pauses id = true by simp [Operation.pauses, hserver, hpaused])] at h
      split <;> omega
    · subst hserver
      have hzero : others.countP (Operation.pauses op.serverID) = 0 := by
        rw [List.countP_eq_zero]
        intro other hother hpauses
        rw [not_pauses_of_prepare hheld hprepare hoverlap hbefore hother] at hpauses
        cases hpauses
      rw [hzero]
      split <;> omega
  · rw [if_neg hnow]
    split at h <;> omega

theorem pausedOnce (hrun : Run operations NoOverlap (noOperations up) trace c) :
    PausedOnce id c := by
  induction hrun with
  | nil => exact Nat.zero_le 1
  | call hrun op hop ih =>
    have hquiet : op.pauses id = false := by
      simp [Operation.pauses, show op.phase = .checks from hop, OperationPhase.pauses]
    unfold PausedOnce at ih ⊢
    rw [List.countP_append, List.countP_singleton, if_neg (by rw [hquiet]; decide)]
    exact ih
  | act hrun hoverlap hact ih => exact ih.act (claimHeld hrun) hoverlap hact

/-! ## The last command -/

/-- The last command given for a server. -/
def lastSent (id : String) (s : Saves) : Option SaveCommand :=
  ((s.sent.filter (·.1 == id)).getLast?).map Prod.snd

theorem lastSent_send_self (id : String) (cmd : SaveCommand) (s : Saves) :
    lastSent id (s.send id cmd) = some cmd := by
  simp [lastSent, Saves.send]

theorem lastSent_send_ne {other : String} (h : other ≠ id) (cmd : SaveCommand) (s : Saves) :
    lastSent id (s.send other cmd) = lastSent id s := by
  simp [lastSent, Saves.send, h]

/-- A step on a running server sends nothing and keeps the saves paused if they were, or it turns
them on, or it sends what pauses them. -/
theorem OperationKind.Step.sends {kind : OperationKind} {server : String}
    {phase phase' : OperationPhase} {s s' : Saves} (hstep : kind.Step server phase s phase' s')
    (hrunning : s.running server = true) :
    (s'.sent = s.sent ∧ (phase.pauses = true → phase'.pauses = true)) ∨
      ∃ cmd, s' = s.send server cmd ∧ (cmd = .saveOn ∨ phase'.pauses = true) := by
  cases hstep with
  | saveOff ok => exact .inr ⟨_, rfl, .inr (by cases ok <;> rfl)⟩
  | saveAllFlush ok => exact .inr ⟨_, rfl, .inr (by cases ok <;> rfl)⟩
  | undo => exact .inr ⟨_, rfl, .inl rfl⟩
  | saveOn => exact .inr ⟨_, rfl, .inl rfl⟩
  | copied paused =>
    refine .inl ⟨rfl, fun hpaused => ?_⟩
    cases paused with
    | true => rfl
    | false => cases hpaused
  | resume =>
    rw [if_pos hrunning]
    exact .inl ⟨rfl, fun _ => rfl⟩
  | _ => exact .inl ⟨rfl, fun hpaused => nomatch hpaused⟩

theorem OperationKind.Step.running {kind : OperationKind} {server : String}
    {phase phase' : OperationPhase} {s s' : Saves} (hstep : kind.Step server phase s phase' s') :
    s'.running = s.running := by
  cases hstep <;> rfl

theorem OperationKind.Step.sent {kind : OperationKind} {server : String}
    {phase phase' : OperationPhase} {s s' : Saves} (hstep : kind.Step server phase s phase' s') :
    s'.sent = s.sent ∨ ∃ cmd, s' = s.send server cmd := by
  cases hstep <;> first | exact .inl rfl | exact .inr ⟨_, rfl⟩

/-- Saves are on unless an operation has them paused. -/
def ResumedOrPaused (id : String) (c : Config Saves Operation) : Prop :=
  lastSent id c.shared = none ∨ lastSent id c.shared = some .saveOn ∨
    ∃ op ∈ c.threads, op.pauses id = true

theorem ResumedOrPaused.act (h : ResumedOrPaused id c) (hrunning : c.shared.running id = true)
    (hact : Acts operations c op c') : ResumedOrPaused id c' := by
  obtain ⟨op', new, others, ⟨phase, hstep, rfl, rfl⟩, hbefore, hafter⟩ := hact.exists_others
  have hactor : ({ op with phase := phase } : Operation) ∈ c'.threads :=
    hafter.mem_iff.2 List.mem_cons_self
  have hstays : ∀ u ∈ others, u ∈ c'.threads := fun u hu =>
    hafter.mem_iff.2 (List.mem_cons_of_mem _ (List.mem_append_left _ hu))
  -- What was there stays, with the actor pausing as long as it sends nothing.
  have hkept : lastSent id c'.shared = lastSent id c.shared →
      (op.pauses id = true → Operation.pauses id { op with phase := phase } = true) →
      ResumedOrPaused id c' := by
    intro hsame hpauses
    unfold ResumedOrPaused at h ⊢
    rw [hsame]
    refine h.imp_right (Or.imp_right ?_)
    rintro ⟨u, hu, hupauses⟩
    rcases List.mem_cons.1 (hbefore.mem_iff.1 hu) with rfl | hother
    · exact ⟨_, hactor, hpauses hupauses⟩
    · exact ⟨u, hstays u hother, hupauses⟩
  by_cases hserver : op.serverID = id
  · subst hserver
    rcases hstep.sends hrunning with ⟨hsent, hpauses⟩ | ⟨cmd, hsend, hcmd⟩
    · refine hkept (by rw [lastSent, lastSent, hsent]) ?_
      simpa [Operation.pauses] using hpauses
    · rcases hcmd with rfl | hpauses
      · exact .inr (.inl (by rw [hsend, lastSent_send_self]))
      · exact .inr (.inr ⟨_, hactor, by simp [Operation.pauses, hpauses]⟩)
  · refine hkept ?_ (by simp [Operation.pauses, hserver])
    rcases hstep.sent with hsent | ⟨cmd, hsend⟩
    · rw [lastSent, lastSent, hsent]
    · rw [hsend, lastSent_send_ne hserver]

theorem running_unchanged (hrun : Run operations allowed (noOperations up) trace c) :
    c.shared.running = up := by
  induction hrun with
  | nil => rfl
  | call hrun op hop ih => exact ih
  | act hrun _ hact ih =>
    obtain ⟨op', new, ⟨phase, hstep, -⟩, -⟩ := hact.exists_step
    exact hstep.running.trans ih

theorem resumedOrPaused (hrun : Run operations allowed (noOperations up) trace c)
    (hup : up id = true) : ResumedOrPaused id c := by
  induction hrun with
  | nil => exact .inl rfl
  | call hrun op hop ih =>
    refine ih.imp_right (Or.imp_right ?_)
    rintro ⟨u, hu, hpauses⟩
    exact ⟨u, List.mem_append_left _ hu, hpauses⟩
  | act hrun _ hact ih => exact ih.act (by rw [running_unchanged hrun, hup]) hact

/-! ## Every run -/

/-- What has been paused stays so for the whole copy, and is resumed in the end. -/
structure SavesPaused (id : String) (c : Config Saves Operation) : Prop where
  /-- No operation turns the saves on while another one copies. -/
  whole : ∀ op c', Acts operations c op c' → c'.shared.sent = c.shared.sent ++ [(id, .saveOn)] →
    ∀ others, c.threads.Perm (op :: others) → ∀ other ∈ others, ¬ other.copies id
  /-- The last command of all turns them on. -/
  resumed : (∀ op ∈ c.threads, op.phase = .returned) →
    lastSent id c.shared = none ∨ lastSent id c.shared = some .saveOn

/-- Whoever turns the saves on has had them paused. -/
theorem OperationKind.Step.sends_saveOn {kind : OperationKind} {server : String}
    {phase phase' : OperationPhase} {s s' : Saves} (hstep : kind.Step server phase s phase' s')
    (h : s'.sent = s.sent ++ [(id, .saveOn)]) : server = id ∧ phase.pauses = true := by
  cases hstep <;> simp_all [Saves.send, OperationPhase.pauses]

/-- In every run in which no duplication overlaps another operation on the server, saves stay
paused for the whole copy. -/
theorem savesPaused_of_noOverlap (hrun : Run operations NoOverlap (noOperations up) trace c)
    (hup : up id = true) : SavesPaused id c where
  whole op c' hact hsent others hperm other hother hcopies := by
    have honce : PausedOnce id c := pausedOnce hrun
    obtain ⟨op', new, ⟨phase, hstep, -⟩, -⟩ := hact.exists_step
    obtain ⟨hserver, hpauses⟩ := hstep.sends_saveOn hsent
    have hop : op.pauses id = true := by simp [Operation.pauses, hserver, hpauses]
    have hcopying : other.pauses id = true := by
      simp [Operation.pauses, hcopies.1, hcopies.2, OperationPhase.pauses]
    have hpos : 0 < others.countP (Operation.pauses id) :=
      List.countP_pos_iff.2 ⟨other, hother, hcopying⟩
    rw [PausedOnce, hperm.countP_eq, List.countP_cons, if_pos hop] at honce
    omega
  resumed hreturned := by
    rcases resumedOrPaused hrun hup with hnone | hon | ⟨op, hop, hpauses⟩
    · exact .inl hnone
    · exact .inr hon
    · simp [Operation.pauses, hreturned op hop, OperationPhase.pauses] at hpauses

/-! ## A duplication during a backup -/

/-- A backup in one of its phases. -/
def backup (phase : OperationPhase) : Operation := ⟨.createBackup, "s1", phase⟩

/-- A duplication in one of its phases. -/
def duplication (phase : OperationPhase) : Operation := ⟨.duplicateWorld, "s1", phase⟩

/-- A backup on its own. -/
theorem savesPaused_of_noOverlap_backup : ∃ trace c,
    Run operations NoOverlap (noOperations fun _ => true) trace c ∧
      c.shared.sent = [("s1", .saveOff), ("s1", .saveAllFlush), ("s1", .saveOn)] ∧
        SavesPaused "s1" c := by
  have hbegin : Run operations NoOverlap (noOperations fun _ => true) [] _ := .nil
  have hcall := hbegin.call (backup .checks) rfl
  have hchecks := hcall.actAt [] [] rfl (fun h => nomatch h) ⟨_, .checksPass, rfl, rfl⟩
  have hclaim := hchecks.actAt [] [] rfl (fun h => nomatch h) ⟨_, .claim rfl, rfl, rfl⟩
  have hsetup := hclaim.actAt (t := backup .setup) [] [] rfl (fun h => nomatch h)
    ⟨_, .setup, rfl, rfl⟩
  have hprepare := hsetup.actAt [] [] rfl (fun _ others hperm other hother => by
    rw [List.length_eq_zero_iff.1 (Nat.succ.inj hperm.length_eq.symm)] at hother
    cases hother) ⟨_, .prepare, rfl, rfl⟩
  have hoff := hprepare.actAt (t := backup .saveOff) [] [] rfl (fun h => nomatch h)
    ⟨_, .saveOff true, rfl, rfl⟩
  have hflush := hoff.actAt (t := backup .saveAllFlush) [] [] rfl (fun h => nomatch h)
    ⟨_, .saveAllFlush true, rfl, rfl⟩
  have hcopied := hflush.actAt (t := backup (.copy true)) [] [] rfl (fun h => nomatch h)
    ⟨_, .copied true, rfl, rfl⟩
  have hresume := hcopied.actAt (t := backup .resume) [] [] rfl (fun h => nomatch h)
    ⟨_, .resume, rfl, rfl⟩
  have hon := hresume.actAt (t := backup .saveOn) [] [] rfl (fun h => nomatch h)
    ⟨_, .saveOn, rfl, rfl⟩
  exact ⟨_, _, hon, rfl, savesPaused_of_noOverlap hon rfl⟩

/-- A world is duplicated while a backup of its server copies: saves are turned on under it. -/
theorem not_savesPaused_duplicate :
    ¬ ∀ trace c, Run operations Unrestricted (noOperations fun _ => true) trace c →
      SavesPaused "s1" c := by
  intro h
  have hbegin : Run operations Unrestricted (noOperations fun _ => true) [] _ := .nil
  have hcall := hbegin.call (backup .checks) rfl
  have hchecks := hcall.actAt [] [] rfl trivial ⟨_, .checksPass, rfl, rfl⟩
  have hclaim := hchecks.actAt [] [] rfl trivial ⟨_, .claim rfl, rfl, rfl⟩
  have hsetup := hclaim.actAt (t := backup .setup) [] [] rfl trivial ⟨_, .setup, rfl, rfl⟩
  have hprepare := hsetup.actAt [] [] rfl trivial ⟨_, .prepare, rfl, rfl⟩
  have hoff := hprepare.actAt (t := backup .saveOff) [] [] rfl trivial
    ⟨_, .saveOff true, rfl, rfl⟩
  have hcopy := hoff.actAt (t := backup .saveAllFlush) [] [] rfl trivial
    ⟨_, .saveAllFlush true, rfl, rfl⟩
  have hcall' := hcopy.call (duplication .checks) rfl
  have hchecks' := hcall'.actAt [backup (.copy true)] [] rfl trivial ⟨_, .checksPass, rfl, rfl⟩
  have hprepare' := hchecks'.actAt (t := duplication .prepare) [backup (.copy true)] [] rfl trivial
    ⟨_, .prepare, rfl, rfl⟩
  have hoff' := hprepare'.actAt (t := duplication .saveOff) [backup (.copy true)] [] rfl trivial
    ⟨_, .saveOff true, rfl, rfl⟩
  have hflush' := hoff'.actAt (t := duplication .saveAllFlush) [backup (.copy true)] [] rfl trivial
    ⟨_, .saveAllFlush true, rfl, rfl⟩
  have hcopied' := hflush'.actAt (t := duplication (.copy true)) [backup (.copy true)] [] rfl
    trivial ⟨_, .copied true, rfl, rfl⟩
  have hresume' := hcopied'.actAt (t := duplication .resume) [backup (.copy true)] [] rfl trivial
    ⟨_, .resume, rfl, rfl⟩
  exact (h _ _ hresume').whole (duplication .saveOn) _
    (.step [backup (.copy true)] [] ⟨_, .saveOn, rfl, rfl⟩) rfl [backup (.copy true)]
    (List.Perm.swap _ _ _) (backup (.copy true)) (List.mem_singleton_self _) ⟨rfl, rfl⟩

end Konnekt.Backup
