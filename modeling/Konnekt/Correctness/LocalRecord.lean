import Konnekt.Mcp.LocalEndpoint

/-!
# The record of the local endpoint

A call that finds the switch and the listener as it expects them leaves a task
for whatever is not yet in step, so that nothing is out of step once every call
has returned.
-/

namespace Konnekt.Mcp

open Threads

/-- The switch still stands where the call wants the endpoint, which can be opened, and a stop
writes what it captured before anything has moved. -/
def Settled (c : Config LocalMCPService LocalCall) : LocalCall → Prop
  | .start opening => c.shared.enabled = true ∧ (c.shared.listener = none → ∃ l, opening = .ok l)
  | .stop => c.shared.enabled = false
  | .shutdown rec => rec = { enabled := c.shared.enabled } ∧ c.shared.listener = none
  | .setEnabled _ _ | .returned => True

/-- What is out of step has a call to put it right. -/
structure InHand (c : Config LocalMCPService LocalCall) : Prop where
  opens : c.shared.enabled = true → c.shared.listener = none →
    ∃ opening, LocalCall.start opening ∈ c.threads
  closes : c.shared.enabled = false → c.shared.listener ≠ none → LocalCall.stop ∈ c.threads
  named : ∀ l, c.shared.listener = some l → c.shared.file = ⟨true, l.port, l.secret⟩
  cleared : c.shared.enabled = false → c.shared.listener = none →
    c.shared.file = { enabled := false } ∨ LocalCall.stop ∈ c.threads ∨
      ∃ rec, LocalCall.shutdown rec ∈ c.threads

theorem inHand_launched (saved : Option Listener) (opening : Opening) :
    InHand (launched saved opening) := by
  cases saved with
  | none => constructor <;> simp [launched]
  | some l => constructor <;> simp [launched]

/-- More calls change nothing. -/
theorem InHand.call {c : Config LocalMCPService LocalCall} (h : InHand c) (t : LocalCall) :
    InHand ⟨c.shared, c.threads ++ [t]⟩ := by
  have hmem {u : LocalCall} (hu : u ∈ c.threads) : u ∈ c.threads ++ [t] :=
    List.mem_append_left _ hu
  refine ⟨fun hon hnone => ?_, fun hoff hsome => hmem (h.closes hoff hsome), h.named,
    fun hoff hnone => ?_⟩
  · obtain ⟨opening, hopening⟩ := h.opens hon hnone
    exact ⟨opening, hmem hopening⟩
  · obtain hfile | hstop | ⟨rec, hrec⟩ := h.cleared hoff hnone
    · exact .inl hfile
    · exact .inr (.inl (hmem hstop))
    · exact .inr (.inr ⟨rec, hmem hrec⟩)

/-- A step of a call that finds things settled leaves a task for what it upsets. -/
theorem InHand.act {c c' : Config LocalMCPService LocalCall} {t : LocalCall} (h : InHand c)
    (hsettled : Settled c t) (hact : Acts localProgram c t c') : InHand c' := by
  obtain ⟨t', new, others, hstep, hbefore, hafter⟩ := hact.exists_others
  obtain ⟨s, threads⟩ := c
  obtain ⟨s', threads'⟩ := c'
  have hkept {u : LocalCall} (hu : u ∈ threads) (hne : u ≠ t) : u ∈ threads' := by
    have hothers := (List.mem_cons.1 (hbefore.mem_iff.1 hu)).resolve_left hne
    exact hafter.mem_iff.2 (List.mem_cons_of_mem _ (List.mem_append_left _ hothers))
  have hnext : t' ∈ threads' := hafter.mem_iff.2 List.mem_cons_self
  cases hstep with
  | switchOn opening =>
    refine ⟨fun _ _ => ⟨opening, hnext⟩, fun hoff => ?_, h.named, fun hoff => ?_⟩
    · cases hoff
    · cases hoff
  | switchOff opening =>
    refine ⟨fun hon => ?_, fun _ _ => hnext, h.named, fun _ _ => .inr (.inl hnext)⟩
    cases hon
  | start opening =>
    obtain ⟨hon, hopens⟩ := hsettled
    have hon : s.enabled = true := hon
    change InHand ⟨s.start opening, threads'⟩
    obtain hl | ⟨l, hl⟩ := s.listener.eq_none_or_eq_some
    case inr =>
      have hsame : s.start opening = s := by simp only [LocalMCPService.start, hl]
      have hoff : s.enabled ≠ false := by rw [hon]; decide
      rw [hsame]
      refine ⟨fun _ hnone => ?_, fun hf => absurd hf hoff, h.named, fun hf => absurd hf hoff⟩
      rw [hl] at hnone
      cases hnone
    case inl =>
      obtain ⟨l, rfl⟩ := hopens hl
      have hopened : s.start (.ok l) =
          { s with listener := some l, file := ⟨s.enabled, l.port, l.secret⟩ } := by
        simp only [LocalMCPService.start, hl]
      rw [hopened]
      refine ⟨fun _ hnone => ?_, fun hoff => ?_, fun l' hl' => ?_, fun hoff => ?_⟩
      · cases hnone
      · exact absurd (hon.symm.trans hoff) (by decide)
      · cases hl'
        exact congrArg (LocalMCPRecord.mk · l.port l.secret) hon
      · exact absurd (hon.symm.trans hoff) (by decide)
  | stop =>
    have hoff : s.enabled = false := hsettled
    refine ⟨fun hon => ?_, fun _ hsome => absurd rfl hsome, fun l hl => ?_,
      fun _ _ => .inr (.inr ⟨_, hnext⟩)⟩
    · exact absurd (hoff.symm.trans hon) (by decide)
    · cases hl
  | writeRecord rec =>
    obtain ⟨rfl, hnone⟩ := hsettled
    have hnone : s.listener = none := hnone
    refine ⟨fun hon hl => ?_, fun _ hsome => absurd hnone hsome, fun l hl => ?_, fun hoff _ => ?_⟩
    · obtain ⟨opening, hopening⟩ := h.opens hon hl
      exact ⟨opening, hkept hopening (by simp)⟩
    · exact absurd (hnone.symm.trans hl) (by simp)
    · exact .inl (congrArg (LocalMCPRecord.mk · 0 "") hoff)

theorem inHand_of_run {saved : Option Listener} {opening : Opening}
    {trace : Trace LocalMCPService LocalCall} {c : Config LocalMCPService LocalCall}
    (hrun : Run localProgram Settled (launched saved opening) trace c) : InHand c := by
  induction hrun with
  | nil => exact inHand_launched saved opening
  | call _ t _ ih => exact ih.call t
  | act _ hallowed h ih => exact ih.act hallowed h

/-- Once every call has returned the file tells the truth, in every run whose calls find things
settled. -/
theorem truthful_of_settled (saved : Option Listener) (opening : Opening)
    (trace : Trace LocalMCPService LocalCall) (c : Config LocalMCPService LocalCall)
    (hrun : Run localProgram Settled (launched saved opening) trace c)
    (hdone : ∀ t ∈ c.threads, t = .returned) : Truthful c.shared := by
  have h := inHand_of_run hrun
  have habsent {t : LocalCall} (hne : t ≠ .returned) : t ∉ c.threads := fun ht => hne (hdone t ht)
  cases hl : c.shared.listener with
  | some l =>
    have hon : c.shared.enabled = true := by
      by_contra hoff
      have hstop := h.closes (Bool.eq_false_iff.2 hoff) (by rw [hl]; exact Option.some_ne_none l)
      exact habsent (by simp) hstop
    constructor
    · rw [hl, h.named l hl, hon]
    · rw [hl, hon]
      rfl
  | none =>
    have hoff : c.shared.enabled = false := by
      rw [Bool.eq_false_iff]
      intro hon
      obtain ⟨o, ho⟩ := h.opens hon hl
      exact habsent (by simp) ho
    constructor
    · rw [hl, hoff]
      obtain hfile | hstop | ⟨rec, hrec⟩ := h.cleared hoff hl
      · exact hfile
      · exact absurd hstop (habsent (by simp))
      · exact absurd hrec (habsent (by simp))
    · rw [hl, hoff]
      rfl

/-- The endpoint is switched on, and off again after it listens. -/
theorem truthful_on_off :
    Truthful (LocalMCPService.mk false none { enabled := false }) := by
  have hrun : Run localProgram Settled (launched none (.error "")) [] (launched none (.error "")) :=
    .nil
  have hon := hrun.call (.setEnabled true (.ok ⟨40123, "first"⟩)) trivial
  have hswitch := hon.actAt [] [] rfl trivial (.switchOn _)
  have hstart := hswitch.actAt [] [] rfl ⟨rfl, fun _ => ⟨_, rfl⟩⟩ (.start _)
  have hoff := hstart.call (.setEnabled false (.error "")) trivial
  have hswitch := hoff.actAt [.returned] [] rfl trivial (.switchOff _)
  have hstop := hswitch.actAt [.returned] [] rfl rfl .stop
  have hwrite := hstop.actAt [.returned] [] rfl ⟨rfl, rfl⟩ (.writeRecord _)
  exact truthful_of_settled none (.error "") _ _ hwrite (by simp)

/-- The endpoint is switched on again while a stop waits for its shutdown: the file says it is
off, and it listens. -/
theorem stop_overwrites_record :
    ¬ ∀ (saved : Option Listener) (opening : Opening)
      (trace : Trace LocalMCPService LocalCall) (c : Config LocalMCPService LocalCall),
      Run localProgram Unrestricted (launched saved opening) trace c →
      (∀ t ∈ c.threads, t = .returned) → Truthful c.shared := by
  intro h
  have hrun : Run localProgram Unrestricted (launched (some ⟨40123, "first"⟩) (.ok ⟨40200, "second"⟩))
      [] (launched (some ⟨40123, "first"⟩) (.ok ⟨40200, "second"⟩)) := .nil
  have hstart := hrun.actAt [] [] rfl trivial (.start _)
  have hoff := hstart.call (.setEnabled false (.error "")) trivial
  have hswitch := hoff.actAt [.returned] [] rfl trivial (.switchOff _)
  have hstop := hswitch.actAt [.returned] [] rfl trivial .stop
  have hon := hstop.call (.setEnabled true (.ok ⟨40300, "third"⟩)) trivial
  have hswitch := hon.actAt [.returned, .shutdown { enabled := false }] [] rfl trivial (.switchOn _)
  have hstart := hswitch.actAt [.returned, .shutdown { enabled := false }] [] rfl trivial (.start _)
  have hwrite := hstart.actAt [.returned] [.returned] rfl trivial (.writeRecord _)
  have hfile := (h _ _ _ _ hwrite (by simp)).file
  exact absurd hfile (by decide)

end Konnekt.Mcp
