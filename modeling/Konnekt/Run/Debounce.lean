import Mathlib.Data.List.Chain
import Mathlib.Order.Bounds.Basic

/-!
# Debounced firing

Something is due at some instants and fires there, unless the last firing is too
recent. The last firing is all the state there is. Two questions are answered: when
no due instant of a finite sequence is dropped, and at which instant of an infinite
one it fires first.
-/

namespace Debounce

variable {τ : Type} (due : τ → Bool) (ready : τ → τ → Bool)

/-- It fires at `t` if it is due there and the last firing, if any, is far enough back. -/
def firesAt (last : Option τ) (t : τ) : Bool := due t && last.all fun l => ready l t

/-- The last firing after the instant `t`. -/
def after (last : Option τ) (t : τ) : Option τ := if firesAt due ready last t then some t else last

/-- The firings over a sequence of instants. -/
def run : Option τ → List τ → List Bool
  | _, [] => []
  | last, t :: ts => firesAt due ready last t :: run (after due ready last t) ts

variable {due ready}

theorem after_of_fires {last : Option τ} {t : τ} (h : firesAt due ready last t = true) :
    after due ready last t = some t :=
  if_pos h

theorem after_of_not_fires {last : Option τ} {t : τ} (h : firesAt due ready last t = false) :
    after due ready last t = last :=
  if_neg (by simp [h])

/-- The last firing is never forgotten. -/
theorem after_or (last : Option τ) (t : τ) :
    (after due ready last t).or last = after due ready last t := by
  unfold after
  split
  · rfl
  · cases last <;> rfl

variable (due ready) in
/-- It fires at exactly the due instants when each of them, starting with the last firing, is
far enough from the one before. -/
theorem run_eq_map_due_iff (last : Option τ) (ts : List τ) :
    run due ready last ts = ts.map due ↔
      List.IsChain (fun l t => ready l t = true) (last.toList ++ ts.filter due) := by
  induction ts generalizing last with
  | nil =>
    refine iff_of_true rfl ?_
    cases last with
    | none => exact .nil
    | some l => exact .singleton l
  | cons t ts ih =>
    rw [run, List.map_cons, List.cons.injEq]
    cases hdue : due t with
    | false =>
      have hfires : firesAt due ready last t = false := by simp [firesAt, hdue]
      rw [after_of_not_fires hfires, ih, List.filter_cons_of_neg (by simp [hdue])]
      exact and_iff_right hfires
    | true =>
      rw [List.filter_cons_of_pos hdue]
      cases last with
      | none =>
        have hfires : firesAt due ready none t = true := by simp [firesAt, hdue]
        rw [after_of_fires hfires, ih]
        exact and_iff_right hfires
      | some l =>
        have hready : firesAt due ready (some l) t = ready l t := by simp [firesAt, hdue]
        rw [Option.toList_some, List.singleton_append, List.isChain_cons_cons, hready]
        refine and_congr_right fun h => ?_
        rw [after_of_fires (hready.trans h), ih]
        rfl

section

variable (due ready) (last : Option τ) (time : ℕ → τ)

/-- The last firing before the instant with index `i`. -/
def lastBefore : ℕ → Option τ
  | 0 => last
  | i + 1 => after due ready (lastBefore i) (time i)

/-- The instants at which it fires. -/
def firings : Set ℕ := {i | firesAt due ready (lastBefore due ready last time i) (time i) = true}

variable {due ready last time}

/-- Until it fires, the last firing stays what it was. -/
theorem lastBefore_eq {k : ℕ} (h : ∀ i < k, i ∉ firings due ready last time) :
    lastBefore due ready last time k = last := by
  induction k with
  | zero => rfl
  | succ k ih =>
    have hk : firesAt due ready (lastBefore due ready last time k) (time k) = false :=
      Bool.eq_false_iff.2 (h k (Nat.lt_succ_self k))
    rw [lastBefore, after_of_not_fires hk]
    exact ih fun i hi => h i (Nat.lt_succ_of_lt hi)

/-- The first firing is the first instant that is due and far enough from the last firing. -/
theorem isLeast_firings_iff (k : ℕ) :
    IsLeast (firings due ready last time) k ↔
      IsLeast {i | firesAt due ready last (time i) = true} k := by
  have hagree : ∀ j, (∀ i < j, i ∉ firings due ready last time) →
      (j ∈ firings due ready last time ↔ firesAt due ready last (time j) = true) := by
    intro j hj
    rw [firings, Set.mem_ofPred_eq, lastBefore_eq hj]
  constructor
  · rintro ⟨hmem, hleast⟩
    have hnone : ∀ j ≤ k, ∀ i < j, i ∉ firings due ready last time :=
      fun j hj i hi hfires => absurd (hleast hfires) (by omega)
    refine ⟨(hagree k (hnone k (Nat.le_refl k))).1 hmem, fun i hi => ?_⟩
    by_contra hlt
    have hik : i ≤ k := by omega
    exact absurd (hleast ((hagree i (hnone i hik)).2 hi)) hlt
  · rintro ⟨hmem, hleast⟩
    have hnone : ∀ j ≤ k, ∀ i < j, i ∉ firings due ready last time := by
      intro j
      induction j with
      | zero => exact fun _ i hi => absurd hi (Nat.not_lt_zero i)
      | succ j ih =>
        intro hj i hi hfires
        obtain hlt | rfl := Nat.lt_succ_iff_lt_or_eq.1 hi
        · exact ih (by omega) i hlt hfires
        · exact absurd (hleast ((hagree i (ih (by omega))).1 hfires)) (by omega)
    refine ⟨(hagree k (hnone k (Nat.le_refl k))).2 hmem, fun i hi => ?_⟩
    by_contra hlt
    exact hnone k (Nat.le_refl k) i (by omega) hi

/-- It never fires when no instant is due and far enough from the last firing. -/
theorem firings_eq_empty_iff :
    firings due ready last time = ∅ ↔ ∀ i, firesAt due ready last (time i) = false := by
  constructor
  · intro h i
    have hlast : lastBefore due ready last time i = last :=
      lastBefore_eq fun j _ hj => by simp [h] at hj
    rw [← hlast]
    exact Bool.eq_false_iff.2 fun hi => Set.eq_empty_iff_forall_notMem.1 h i hi
  · intro h
    rw [Set.eq_empty_iff_forall_notMem]
    intro i
    induction i using Nat.strong_induction_on with
    | _ i ih =>
      rw [firings, Set.mem_ofPred_eq, lastBefore_eq ih, h i]
      exact Bool.false_ne_true

end

end Debounce
