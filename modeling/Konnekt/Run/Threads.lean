import Mathlib.Data.List.Perm.Basic

/-!
# Threads over shared state

Any number of threads take atomic steps over one shared state, in every order. A
step may start further threads, and calls from outside begin at any time. The law
of a lock is a count: as many threads hold it as it is taken.
-/

namespace Threads

variable {σ θ : Type}

/-- What the threads do: a step takes a thread and the shared state to the next ones and starts
further threads. Some threads may begin at any time. -/
structure Program (σ θ : Type) where
  step : θ → σ → θ → σ → List θ → Prop
  begins : θ → Prop

structure Config (σ θ : Type) where
  shared : σ
  threads : List θ

/-- One thread takes a step. -/
inductive Acts (P : Program σ θ) : Config σ θ → θ → Config σ θ → Prop
  | step {t t' : θ} {s s' : σ} {new : List θ} (pre post : List θ) (h : P.step t s t' s' new) :
      Acts P ⟨s, pre ++ t :: post⟩ t ⟨s', pre ++ t' :: (post ++ new)⟩

/-- The steps that have been taken, the last one first, each with the state it was taken in. -/
abbrev Trace (σ θ : Type) : Type := List (σ × θ)

/-- A run in which every step is allowed. -/
inductive Run (P : Program σ θ) (allowed : Config σ θ → θ → Prop) (c₀ : Config σ θ) :
    Trace σ θ → Config σ θ → Prop
  | nil : Run P allowed c₀ [] c₀
  | call {trace : Trace σ θ} {c : Config σ θ} (hrun : Run P allowed c₀ trace c) (t : θ)
      (h : P.begins t) : Run P allowed c₀ trace ⟨c.shared, c.threads ++ [t]⟩
  | act {trace : Trace σ θ} {c c' : Config σ θ} {t : θ} (hrun : Run P allowed c₀ trace c)
      (hallowed : allowed c t) (h : Acts P c t c') :
      Run P allowed c₀ ((c.shared, t) :: trace) c'

/-- Every interleaving. -/
def Unrestricted (_ : Config σ θ) (_ : θ) : Prop := True

variable {P : Program σ θ} {allowed : Config σ θ → θ → Prop} {c₀ c c' : Config σ θ}
  {trace : Trace σ θ} {t : θ}

/-- The thread that takes a step is there. -/
theorem Acts.mem (h : Acts P c t c') : t ∈ c.threads := by
  cases h with
  | step pre post h => exact List.mem_append_right pre List.mem_cons_self

/-- A step concerns the thread that acts and the ones it starts; the others stay. -/
theorem Acts.exists_others (h : Acts P c t c') : ∃ t' new others,
    P.step t c.shared t' c'.shared new ∧ c.threads.Perm (t :: others) ∧
      c'.threads.Perm (t' :: (others ++ new)) := by
  cases h with
  | @step t t' s s' new pre post h =>
    refine ⟨t', new, pre ++ post, h, List.perm_middle, ?_⟩
    rw [List.append_assoc]
    exact List.perm_middle

/-- After a step there are the threads of before, what has become of the one that acted, and the
ones it started. -/
theorem Acts.exists_step (h : Acts P c t c') : ∃ t' new, P.step t c.shared t' c'.shared new ∧
    ∀ u ∈ c'.threads, u ∈ c.threads ∨ u = t' ∨ u ∈ new := by
  obtain ⟨t', new, others, hstep, hbefore, hafter⟩ := h.exists_others
  refine ⟨t', new, hstep, fun u hu => ?_⟩
  rcases List.mem_cons.1 (hafter.mem_iff.1 hu) with rfl | hrest
  · exact .inr (.inl rfl)
  · rcases List.mem_append.1 hrest with hold | hnew
    · exact .inl (hbefore.mem_iff.2 (List.mem_cons_of_mem t hold))
    · exact .inr (.inr hnew)

/-- A step of the thread behind the first ones. -/
theorem Acts.at {s' : σ} {t' : θ} {new : List θ} (pre post : List θ)
    (hthreads : c.threads = pre ++ t :: post) (h : P.step t c.shared t' s' new) :
    Acts P c t ⟨s', pre ++ t' :: (post ++ new)⟩ := by
  obtain ⟨s, threads⟩ := c
  obtain rfl := hthreads
  exact .step pre post h

theorem Run.actAt {s' : σ} {t' : θ} {new : List θ} (hrun : Run P allowed c₀ trace c)
    (pre post : List θ) (hthreads : c.threads = pre ++ t :: post) (hallowed : allowed c t)
    (h : P.step t c.shared t' s' new) :
    Run P allowed c₀ ((c.shared, t) :: trace) ⟨s', pre ++ t' :: (post ++ new)⟩ :=
  hrun.act hallowed (.at pre post hthreads h)

/-- A run stays one when more steps are allowed. -/
theorem Run.mono {allowed' : Config σ θ → θ → Prop} (hrun : Run P allowed c₀ trace c)
    (hle : ∀ c t, allowed c t → allowed' c t) : Run P allowed' c₀ trace c := by
  induction hrun with
  | nil => exact .nil
  | call hrun t h ih => exact .call ih t h
  | act hrun hallowed h ih => exact .act ih (hle _ _ hallowed) h

/-- Every step of a run was taken at the end of a run of its own. -/
theorem Run.before {newer older : Trace σ θ} {e : σ × θ}
    (hrun : Run P allowed c₀ (newer ++ e :: older) c) : ∃ c₁ c₂, Run P allowed c₀ older c₁ ∧
      c₁.shared = e.1 ∧ allowed c₁ e.2 ∧ Acts P c₁ e.2 c₂ := by
  generalize hfull : newer ++ e :: older = full at hrun
  induction hrun generalizing newer with
  | nil => exact absurd hfull (by simp)
  | call hrun t h ih => exact ih hfull
  | @act trace c c' t hrun hallowed h ih =>
    cases newer with
    | nil =>
      obtain ⟨rfl, rfl⟩ := List.cons.inj hfull
      exact ⟨c, c', hrun, rfl, hallowed, h⟩
    | cons d newer => exact ih (List.cons.inj hfull).2

/-! ## Locks -/

/-- The number of threads that hold a lock. -/
def holders (holds : θ → Bool) (c : Config σ θ) : Nat := c.threads.countP holds

/-- A step takes the lock for its thread when it is free, gives it back, passes it on to a thread
it starts, or leaves it as it is. -/
def Balanced (P : Program σ θ) (locked : σ → Bool) (holds : θ → Bool) : Prop :=
  ∀ ⦃t s t' s' new⦄, P.step t s t' s' new → (holds t = true → locked s = true) →
    (locked s).toNat + (t' :: new).countP holds = (locked s').toNat + [t].countP holds

/-- A lock that a thread holds is taken. -/
theorem locked_of_holds {locked : σ → Bool} {holds : θ → Bool}
    (h : holders holds c = (locked c.shared).toNat) (hmem : t ∈ c.threads)
    (hholds : holds t = true) : locked c.shared = true := by
  cases hl : locked c.shared with
  | true => rfl
  | false =>
    rw [hl, Bool.toNat_false, holders, List.countP_eq_zero] at h
    exact absurd hholds (h t hmem)

/-- A balanced step keeps the count. -/
theorem Acts.holders_eq {locked : σ → Bool} {holds : θ → Bool} (hact : Acts P c t c')
    (hbalanced : Balanced P locked holds)
    (h : holders holds c = (locked c.shared).toNat) :
    holders holds c' = (locked c'.shared).toNat := by
  have hheld := locked_of_holds h hact.mem
  obtain ⟨t', new, others, hstep, hbefore, hafter⟩ := hact.exists_others
  have hcount := hbalanced hstep hheld
  rw [holders, hbefore.countP_eq] at h
  rw [holders, hafter.countP_eq]
  simp only [List.countP_cons, List.countP_append, List.countP_nil] at hcount h ⊢
  omega

/-- A lock is held by one thread while it is taken, and else by none. -/
theorem Run.holders_eq {locked : σ → Bool} {holds : θ → Bool} (hrun : Run P allowed c₀ trace c)
    (hbalanced : Balanced P locked holds) (hbegins : ∀ t, P.begins t → holds t = false)
    (hinit : holders holds c₀ = (locked c₀.shared).toNat) :
    holders holds c = (locked c.shared).toNat := by
  induction hrun with
  | nil => exact hinit
  | call hrun t h ih =>
    rw [holders, List.countP_append, List.countP_singleton, hbegins t h]
    exact ih
  | act hrun _ h ih => exact h.holders_eq hbalanced ih

/-- While a thread holds the lock, no other one does. -/
theorem not_holds_of_holds {locked : σ → Bool} {holds : θ → Bool} {others : List θ} {u : θ}
    (h : holders holds c = (locked c.shared).toNat) (hperm : c.threads.Perm (t :: others))
    (hholds : holds t = true) (hmem : u ∈ others) : holds u = false := by
  have hone : (locked c.shared).toNat ≤ 1 := Bool.toNat_le _
  rw [holders, hperm.countP_eq, List.countP_cons, hholds, if_pos rfl] at h
  have hzero : others.countP holds = 0 := by omega
  exact Bool.not_eq_true _ ▸ List.countP_eq_zero.1 hzero u hmem

/-- Only one thread holds the lock. -/
theorem holder_unique [DecidableEq θ] {locked : σ → Bool} {holds : θ → Bool} {u : θ}
    (h : holders holds c = (locked c.shared).toNat) (ht : t ∈ c.threads) (htholds : holds t = true)
    (hu : u ∈ c.threads) (huholds : holds u = true) : u = t := by
  by_contra hne
  have hother : u ∈ c.threads.erase t := (List.mem_erase_of_ne hne).2 hu
  rw [not_holds_of_holds h (List.perm_cons_erase ht) htholds hother] at huholds
  cases huholds

/-! ## Components -/

/-- How one program contains another: what it shares of the state, which of the threads are its
own, and what the others may do to its state. -/
structure Component {σ θ τ κ : Type} (P : Program σ θ) (Q : Program τ κ) where
  view : σ → τ
  part : θ → Option κ
  quiet : τ → τ → Prop
  begins : ∀ ⦃t k⦄, P.begins t → part t = some k → Q.begins k
  own : ∀ ⦃t s t' s' new k⦄, P.step t s t' s' new → part t = some k →
    ∃ k', part t' = some k' ∧ Q.step k (view s) k' (view s') (new.filterMap part)
  other : ∀ ⦃t s t' s' new⦄, P.step t s t' s' new → part t = none →
    part t' = none ∧ new.filterMap part = [] ∧ quiet (view s) (view s')

namespace Component

variable {τ κ : Type} {Q : Program τ κ}

/-- What the contained program sees of a configuration. -/
def config (C : Component P Q) (c : Config σ θ) : Config τ κ :=
  ⟨C.view c.shared, c.threads.filterMap C.part⟩

/-- A step of the whole is one of the contained program, or quiet for it. -/
theorem acts (C : Component P Q) (hact : Acts P c t c') :
    (∃ k, Acts Q (C.config c) k (C.config c')) ∨
      ((C.config c').threads = (C.config c).threads ∧
        C.quiet (C.view c.shared) (C.view c'.shared)) := by
  cases hact with
  | @step t t' s s' new pre post hstep =>
    cases hpart : C.part t with
    | some k =>
      obtain ⟨k', hpart', hown⟩ := C.own hstep hpart
      refine .inl ⟨k, ?_⟩
      simp only [config, List.filterMap_append, List.filterMap_cons, hpart, hpart']
      exact .step _ _ hown
    | none =>
      obtain ⟨hpart', hnew, hquiet⟩ := C.other hstep hpart
      refine .inr ⟨?_, hquiet⟩
      simp only [config, List.filterMap_append, List.filterMap_cons, hpart, hpart', hnew,
        List.append_nil]

/-- What the steps of the contained program and the quiet ones keep holds throughout the runs of
the whole. -/
theorem invariant (C : Component P Q) {I : Config τ κ → Prop} (hinit : I (C.config c₀))
    (hbegins : ∀ c k, Q.begins k → I c → I ⟨c.shared, c.threads ++ [k]⟩)
    (hacts : ∀ c k c', Acts Q c k c' → I c → I c')
    (hquiet : ∀ s s' threads, C.quiet s s' → I ⟨s, threads⟩ → I ⟨s', threads⟩)
    (hrun : Run P allowed c₀ trace c) : I (C.config c) := by
  induction hrun with
  | nil => exact hinit
  | @call trace c hrun t h ih =>
    cases hpart : C.part t with
    | some k => simpa [config, hpart] using hbegins _ k (C.begins h hpart) ih
    | none => simpa [config, hpart] using ih
  | @act trace c c' t hrun _ h ih =>
    rcases C.acts h with ⟨k, hk⟩ | ⟨hthreads, hq⟩
    · exact hacts _ k _ hk ih
    · change I ⟨C.view c'.shared, (C.config c').threads⟩
      rw [hthreads]
      exact hquiet _ _ _ hq ih

end Component

end Threads
