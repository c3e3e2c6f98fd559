import Mathlib.Logic.Relation

/-!
# Snapshots written outside the lock

A value in memory is changed in atomic steps, each of which takes a snapshot; a
later step writes the snapshot to a file. Snapshots are numbered by the changes
they were taken at. When no snapshot is written after a newer one, the file holds
the value in memory as soon as nothing is left to write.
-/

namespace SnapshotWrite

open Relation

variable {σ : Type}

/-- A numbered snapshot. -/
structure Snapshot (σ : Type) where
  number : Nat
  value : σ

/-- The value in memory, the snapshot the file holds and those still to be written. -/
structure State (σ : Type) where
  memory : σ
  changes : Nat
  file : Snapshot σ
  pending : List (Snapshot σ)

/-- Nothing has changed since the file was written. -/
def State.initial (m : σ) : State σ := ⟨m, 0, ⟨0, m⟩, []⟩

/-- The file is brought up to date by a step that writes a snapshot under a condition. -/
inductive Step (change : σ → σ → Prop) (allowed : State σ → Snapshot σ → Prop) :
    State σ → State σ → Prop
  | change {s : State σ} {m : σ} (h : change s.memory m) :
      Step change allowed s
        ⟨m, s.changes + 1, s.file, s.pending ++ [⟨s.changes + 1, m⟩]⟩
  | write {s : State σ} (pre : List (Snapshot σ)) (p : Snapshot σ) (post : List (Snapshot σ))
      (hp : s.pending = pre ++ p :: post) (hallowed : allowed s p) :
      Step change allowed s ⟨s.memory, s.changes, p, pre ++ post⟩

/-- Every interleaving. -/
def Unordered (_ : State σ) (_ : Snapshot σ) : Prop := True

/-- The snapshot is newer than the one the file holds. -/
def InOrder (s : State σ) (p : Snapshot σ) : Prop := s.file.number < p.number

variable {change : σ → σ → Prop} {s t : State σ}

/-- The newest snapshot is in the file or still to be written, and none is newer. -/
structure NewestKept (s : State σ) : Prop where
  bounded : ∀ p ∈ s.pending, p.number ≤ s.changes
  newest : s.file = ⟨s.changes, s.memory⟩ ∨ ⟨s.changes, s.memory⟩ ∈ s.pending

theorem NewestKept.initial (m : σ) : NewestKept (State.initial m) :=
  ⟨fun _ h => absurd h List.not_mem_nil, .inl rfl⟩

/-- Changes, and writes in order, keep the newest snapshot. -/
theorem NewestKept.step (h : NewestKept s) (hstep : Step change InOrder s t) : NewestKept t := by
  cases hstep with
  | change hchange =>
    refine ⟨fun p hp => ?_, .inr (List.mem_append_right _ (List.mem_singleton_self _))⟩
    rcases List.mem_append.1 hp with hold | hnew
    · exact Nat.le_succ_of_le (h.bounded p hold)
    · obtain rfl := List.mem_singleton.1 hnew
      exact Nat.le_refl _
  | write pre p post hp hallowed =>
    have hmem : ∀ q, q ∈ pre ++ post → q ∈ s.pending := by
      intro q hq
      rw [hp]
      exact (List.mem_append.1 hq).elim (List.mem_append_left _) fun hpost =>
        List.mem_append_right _ (List.mem_cons_of_mem _ hpost)
    refine ⟨fun q hq => h.bounded q (hmem q hq), ?_⟩
    rcases h.newest with hfile | hpending
    · -- the file already held the newest one, so nothing may be written
      have hle := h.bounded p (by rw [hp]; exact List.mem_append_right _ List.mem_cons_self)
      rw [InOrder, hfile] at hallowed
      exact absurd hallowed (Nat.not_lt.2 hle)
    · rw [hp] at hpending
      rcases List.mem_append.1 hpending with hpre | hpost
      · exact .inr (List.mem_append_left _ hpre)
      · rcases List.mem_cons.1 hpost with heq | hpost
        · exact .inl heq.symm
        · exact .inr (List.mem_append_right _ hpost)

theorem NewestKept.of_run {m : σ}
    (hrun : ReflTransGen (Step change InOrder) (State.initial m) s) : NewestKept s := by
  induction hrun with
  | refl => exact NewestKept.initial m
  | tail _ hstep ih => exact ih.step hstep

/-- After any run with writes in order, the file is up to date once nothing is pending. -/
theorem file_eq_memory {m : σ} (hrun : ReflTransGen (Step change InOrder) (State.initial m) s)
    (hdone : s.pending = []) : s.file.value = s.memory := by
  rcases (NewestKept.of_run hrun).newest with hfile | hpending
  · rw [hfile]
  · rw [hdone] at hpending
    cases hpending

end SnapshotWrite
