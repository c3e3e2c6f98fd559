import Mathlib.Data.List.Perm.Basic
import Mathlib.Logic.Relation

/-!
# Unguarded read-modify-write

Concurrent calls change one value by reading it in a first step and writing a
changed copy in a later one. As long as the value is still what a call read when
it writes, the calls have the effect of running one after the other in the order
of their writes.
-/

namespace ReadModifyWrite

open Relation

variable {σ κ : Type}

/-- The value, the calls that have not read it, those that have with what they read, and
those that have written it, in order. -/
structure State (σ κ : Type) where
  file : σ
  waiting : List κ
  opened : List (κ × σ)
  done : List κ

/-- All calls are still to come. -/
def State.initial (file : σ) (calls : List κ) : State σ κ := ⟨file, calls, [], []⟩

/-- The calls in whatever phase they are. -/
def State.calls (s : State σ κ) : List κ := s.waiting ++ s.opened.map Prod.fst ++ s.done

/-- A call reads the value, or writes what it makes of the value it read. -/
inductive Step (apply : κ → σ → σ) (allowed : State σ κ → κ × σ → Prop) :
    State σ κ → State σ κ → Prop
  | read {s : State σ κ} (pre : List κ) (k : κ) (post : List κ) (h : s.waiting = pre ++ k :: post) :
      Step apply allowed s ⟨s.file, pre ++ post, s.opened ++ [(k, s.file)], s.done⟩
  | write {s : State σ κ} (pre : List (κ × σ)) (k : κ) (v : σ) (post : List (κ × σ))
      (h : s.opened = pre ++ (k, v) :: post) (hallowed : allowed s (k, v)) :
      Step apply allowed s ⟨apply k v, s.waiting, pre ++ post, s.done ++ [k]⟩

/-- Every interleaving. -/
def Unordered (_ : State σ κ) (_ : κ × σ) : Prop := True

/-- The value is still what the call read. -/
def Current (s : State σ κ) (o : κ × σ) : Prop := s.file = o.2

variable {apply : κ → σ → σ} {allowed : State σ κ → κ × σ → Prop} {file : σ} {calls : List κ}
  {s t : State σ κ}

/-- A step neither loses nor adds a call. -/
theorem calls_of_step (hstep : Step apply allowed s t) : t.calls.Perm s.calls := by
  cases hstep with
  | read pre k post h =>
    simp only [State.calls, h, List.map_append, List.map_cons, List.map_nil, List.append_assoc]
    refine List.Perm.append_left pre ?_
    have hmiddle := @List.perm_middle _ k (post ++ s.opened.map Prod.fst) s.done
    simpa using hmiddle
  | write pre k v post h _ =>
    simp only [State.calls, h, List.map_append, List.map_cons, List.append_assoc]
    refine List.Perm.append_left s.waiting (List.Perm.append_left (pre.map Prod.fst) ?_)
    have hmiddle := @List.perm_middle _ k (post.map Prod.fst ++ s.done) []
    simpa using hmiddle

theorem calls_of_run (hrun : ReflTransGen (Step apply allowed) (State.initial file calls) s) :
    s.calls.Perm calls := by
  induction hrun with
  | refl => simp [State.calls, State.initial]
  | tail _ hstep ih => exact (calls_of_step hstep).trans ih

/-- When no call overwrites a change it has not seen, the calls take effect one after the other. -/
theorem file_eq_foldl
    (hrun : ReflTransGen (Step apply Current) (State.initial file calls) s) :
    s.file = s.done.foldl (fun v k => apply k v) file := by
  induction hrun with
  | refl => rfl
  | tail _ hstep ih =>
    cases hstep with
    | read pre k post h => exact ih
    | write pre k v post h hcurrent =>
      have hread : v = _ := hcurrent.symm
      rw [List.foldl_append, ← ih, ← hread]
      rfl

/-- After all calls have returned, the value is the result of running them in some order. -/
theorem exists_order (hrun : ReflTransGen (Step apply Current) (State.initial file calls) s)
    (hwaiting : s.waiting = []) (hopened : s.opened = []) :
    ∃ order : List κ, order.Perm calls ∧ s.file = order.foldl (fun v k => apply k v) file := by
  refine ⟨s.done, ?_, file_eq_foldl hrun⟩
  have hcalls := calls_of_run hrun
  rwa [State.calls, hwaiting, hopened] at hcalls

end ReadModifyWrite
