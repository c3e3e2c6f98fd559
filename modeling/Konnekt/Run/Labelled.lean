import Mathlib.Data.List.Infix

/-!
# Runs that keep their history

A system takes actions one after the other, each of which answers and moves it to a
next state. A run keeps every action with the state it was taken in, so that what a
later state owes to an earlier action can be told from the history.
-/

namespace Labelled

variable {σ α ω : Type}

/-- What an action answers and where it leads, and when it can be taken. -/
structure System (σ α ω : Type) where
  act : α → σ → ω × σ
  enabled : α → σ → Prop

/-- The actions taken, the last one first, each with the state it was taken in. -/
abbrev History (σ α : Type) : Type := List (σ × α)

variable {S : System σ α ω} {allowed : History σ α → σ → α → Prop} {s₀ s : σ} {h : History σ α}

/-- What an action of a history answered. -/
def System.answer (S : System σ α ω) (e : σ × α) : ω := (S.act e.2 e.1).1

/-- A run in which every action is allowed by what went before. -/
inductive Run (S : System σ α ω) (allowed : History σ α → σ → α → Prop) (s₀ : σ) :
    History σ α → σ → Prop
  | nil : Run S allowed s₀ [] s₀
  | act {h : History σ α} {s : σ} (hrun : Run S allowed s₀ h s) (a : α)
      (henabled : S.enabled a s) (hallowed : allowed h s a) :
      Run S allowed s₀ ((s, a) :: h) (S.act a s).2

/-- What holds at the start and is kept by every action holds throughout a run. -/
theorem Run.invariant {P : History σ α → σ → Prop} (hrun : Run S allowed s₀ h s)
    (hstart : P [] s₀) (hact : ∀ h s a, Run S allowed s₀ h s → P h s → S.enabled a s →
      allowed h s a → P ((s, a) :: h) (S.act a s).2) : P h s := by
  induction hrun with
  | nil => exact hstart
  | act hrun a henabled hallowed ih => exact hact _ _ a hrun ih henabled hallowed

/-- Every action of a run was taken at the end of a run of its own. -/
theorem Run.before {newer older : History σ α} {e : σ × α} {end_ : σ}
    (hrun : Run S allowed s₀ (newer ++ e :: older) end_) :
    Run S allowed s₀ older e.1 ∧ S.enabled e.2 e.1 ∧ allowed older e.1 e.2 := by
  generalize hfull : newer ++ e :: older = full at hrun
  induction hrun generalizing newer with
  | nil => exact absurd hfull (by simp)
  | @act h s hrun a henabled hallowed ih =>
    cases newer with
    | nil =>
      obtain ⟨rfl, rfl⟩ := List.cons.inj hfull
      exact ⟨hrun, henabled, hallowed⟩
    | cons d newer => exact ih (List.cons.inj hfull).2

/-- What an action brings about and every later action keeps, as far as the actions since then
allow, is so at the end. -/
theorem Run.since {P : History σ α → σ → Prop} {newer older : History σ α} {e : σ × α} {end_ : σ}
    (hrun : Run S allowed s₀ (newer ++ e :: older) end_) (hstart : P [] (S.act e.2 e.1).2)
    (hact : ∀ newer s a, Run S allowed s₀ (newer ++ e :: older) s → P newer s → S.enabled a s →
      allowed (newer ++ e :: older) s a → P ((s, a) :: newer) (S.act a s).2) : P newer end_ := by
  generalize hfull : newer ++ e :: older = full at hrun
  induction hrun generalizing newer with
  | nil => exact absurd hfull (by simp)
  | @act h s hrun _ henabled hallowed ih =>
    cases newer with
    | nil =>
      obtain ⟨rfl, rfl⟩ := List.cons.inj hfull
      exact hstart
    | cons d newer =>
      obtain ⟨rfl, rfl⟩ := List.cons.inj hfull
      exact hact newer s _ hrun (ih rfl) henabled hallowed

/-! ## A part of a system -/

variable {σ' α' ω' : Type} {S' : System σ' α' ω'} {allowed' : History σ' α' → σ' → α' → Prop}

/-- What a history is to a part of the system. -/
def History.part (view : σ → σ') (part : α → Option α') (h : History σ α) : History σ' α' :=
  h.filterMap fun e => (part e.2).map (view e.1, ·)

/-- A run is a run of a part, when each action is one of the part or leaves the part alone. -/
theorem Run.part (hrun : Run S allowed s₀ h s) (view : σ → σ') (part : α → Option α')
    (hpart : ∀ h s a b, part a = some b → S.enabled a s → allowed h s a →
      S'.enabled b (view s) ∧ allowed' (h.part view part) (view s) b ∧
        view (S.act a s).2 = (S'.act b (view s)).2)
    (hrest : ∀ s a, part a = none → view (S.act a s).2 = view s) :
    Run S' allowed' (view s₀) (h.part view part) (view s) := by
  induction hrun with
  | nil => exact .nil
  | @act h s hrun a henabled hallowed ih =>
    cases ha : part a with
    | none =>
      have hsame : History.part view part ((s, a) :: h) = h.part view part := by
        rw [History.part, List.filterMap_cons, ha]
        rfl
      rw [hsame, hrest s a ha]
      exact ih
    | some b =>
      have hmore : History.part view part ((s, a) :: h) = (view s, b) :: h.part view part := by
        rw [History.part, List.filterMap_cons, ha]
        rfl
      obtain ⟨henabled', hallowed', hact⟩ := hpart h s a b ha henabled hallowed
      rw [hmore, hact]
      exact .act ih b henabled' hallowed'

/-- What an entry is for the first time, at most one is. -/
theorem once_cons {p : σ × α → Bool} {e : σ × α} (hnew : p e = true → ∀ e' ∈ h, p e' ≠ true)
    (honce : (h.filter p).length ≤ 1) : ((e :: h).filter p).length ≤ 1 := by
  cases hp : p e with
  | false =>
    rw [List.filter_cons_of_neg (by rw [hp]; exact Bool.false_ne_true)]
    exact honce
  | true =>
    rw [List.filter_cons_of_pos hp, List.filter_eq_nil_iff.2 (hnew hp)]
    exact Nat.le_refl 1

/-! ## Runs on fixed inputs -/

/-- The history of some actions taken one after the other, the last one first, and where they
lead. -/
def System.play (S : System σ α ω) (s₀ : σ) : List α → History σ α × σ
  | [] => ([], s₀)
  | a :: actions =>
    let (h, s) := S.play s₀ actions
    ((s, a) :: h, (S.act a s).2)

/-- Each of some actions can be taken and is allowed when its turn comes. -/
def System.Playable (S : System σ α ω) (allowed : History σ α → σ → α → Prop) (s₀ : σ) :
    List α → Prop
  | [] => True
  | a :: actions =>
    S.Playable allowed s₀ actions ∧ S.enabled a (S.play s₀ actions).2 ∧
      allowed (S.play s₀ actions).1 (S.play s₀ actions).2 a

instance System.decidablePlayable [∀ a s, Decidable (S.enabled a s)]
    [∀ h s a, Decidable (allowed h s a)] : ∀ actions, Decidable (S.Playable allowed s₀ actions)
  | [] => .isTrue trivial
  | _ :: actions =>
    have := System.decidablePlayable actions
    inferInstanceAs (Decidable (_ ∧ _ ∧ _))

theorem System.Playable.run {actions : List α} (h : S.Playable allowed s₀ actions) :
    Run S allowed s₀ (S.play s₀ actions).1 (S.play s₀ actions).2 := by
  induction actions with
  | nil => exact .nil
  | cons a actions ih => exact .act (ih h.1) a h.2.1 h.2.2

end Labelled
