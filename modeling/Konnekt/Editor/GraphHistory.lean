import Mathlib.Data.List.Basic

/-!
# Undo and redo in the editor

A history keeps the graphs in front of the last actions, ten of them at most, and the
graphs behind them that were taken back. Next to it stands a plain list zipper that forgets
nothing. The history is the zipper restricted to its last ten entries, and it shows what
the zipper shows.
-/

namespace Konnekt.Editor

variable {σ : Type}

/-- `HistoryState`; no function looks into a snapshot. -/
structure HistoryState (σ : Type) where
  past : List σ
  future : List σ
  lastTag : Option String
  deriving DecidableEq, Repr

/-- `MAX_HISTORY`. -/
def maxHistory : Nat := 10

/-- `emptyHistory`. -/
def emptyHistory : HistoryState σ := ⟨[], [], none⟩

/-- `while (past.length > MAX_HISTORY) past.shift()`. -/
def shiftPast : List σ → List σ
  | [] => []
  | x :: past => if maxHistory < (x :: past).length then shiftPast past else x :: past

/-- `record`. -/
def record (state : HistoryState σ) (snapshot : σ) (tag : Option String) : HistoryState σ :=
  if tag ≠ none ∧ tag = state.lastTag then state
  else ⟨shiftPast (state.past ++ [snapshot]), [], tag⟩

/-- `undo`. -/
def undo (state : HistoryState σ) (current : σ) : Option (HistoryState σ × σ) :=
  match state.past.getLast? with
  | none => none
  | some snapshot => some (⟨state.past.dropLast, state.future ++ [current], none⟩, snapshot)

/-- `redo`. -/
def redo (state : HistoryState σ) (current : σ) : Option (HistoryState σ × σ) :=
  match state.future.getLast? with
  | none => none
  | some snapshot =>
    some (⟨shiftPast (state.past ++ [current]), state.future.dropLast, none⟩, snapshot)

/-! ## Runs -/

/-- What the editor does to its history. -/
inductive HistoryOp (σ : Type) where
  | record (snapshot : σ) (tag : Option String)
  | undo (current : σ)
  | redo (current : σ)

/-- A history after one operation, and the graph that is shown then. -/
def HistoryOp.act (op : HistoryOp σ) (state : HistoryState σ) : HistoryState σ × Option σ :=
  match op with
  | .record snapshot tag => (Editor.record state snapshot tag, none)
  | .undo current =>
    match Editor.undo state current with
    | none => (state, none)
    | some (state, snapshot) => (state, some snapshot)
  | .redo current =>
    match Editor.redo state current with
    | none => (state, none)
    | some (state, snapshot) => (state, some snapshot)

/-- The history after some operations, and the graphs that were shown. -/
def runHistory (state : HistoryState σ) : List (HistoryOp σ) → HistoryState σ × List σ
  | [] => (state, [])
  | op :: ops =>
    let (state, shown) := op.act state
    ((runHistory state ops).1, shown.toList ++ (runHistory state ops).2)

/-- The graphs an operation comes with. -/
def HistoryOp.graph : HistoryOp σ → σ
  | .record snapshot _ => snapshot
  | .undo current => current
  | .redo current => current

/-! ## The plain zipper -/

namespace Zipper

/-- A record that forgets nothing. -/
def record (z : HistoryState σ) (snapshot : σ) (tag : Option String) : HistoryState σ :=
  if tag ≠ none ∧ tag = z.lastTag then z else ⟨z.past ++ [snapshot], [], tag⟩

/-- A redo that forgets nothing. -/
def redo (z : HistoryState σ) (current : σ) : Option (HistoryState σ × σ) :=
  match z.future.getLast? with
  | none => none
  | some snapshot => some (⟨z.past ++ [current], z.future.dropLast, none⟩, snapshot)

/-- The zipper after one operation, and the graph that is shown then. -/
def act (op : HistoryOp σ) (z : HistoryState σ) : HistoryState σ × Option σ :=
  match op with
  | .record snapshot tag => (record z snapshot tag, none)
  | .undo current =>
    match undo z current with
    | none => (z, none)
    | some (z, snapshot) => (z, some snapshot)
  | .redo current =>
    match redo z current with
    | none => (z, none)
    | some (z, snapshot) => (z, some snapshot)

/-- The last ten entries of a zipper, taken back or not. -/
def restrict (z : HistoryState σ) : HistoryState σ :=
  { z with past := z.past.drop (z.past.length + z.future.length - maxHistory) }

/-- The zipper after some operations, and the graphs that were shown. -/
def run (z : HistoryState σ) : List (HistoryOp σ) → HistoryState σ × List σ
  | [] => (z, [])
  | op :: ops =>
    let (z, shown) := act op z
    ((run z ops).1, shown.toList ++ (run z ops).2)

/-- The same where only the last ten entries are left after each operation. -/
def runRestricted (z : HistoryState σ) : List (HistoryOp σ) → HistoryState σ × List σ
  | [] => (z, [])
  | op :: ops =>
    let (z, shown) := act op z
    ((runRestricted (restrict z) ops).1, shown.toList ++ (runRestricted (restrict z) ops).2)

end Zipper

/-- There is nothing to undo, or to redo. -/
def HistoryState.refuses (state : HistoryState σ) : HistoryOp σ → Bool
  | .record _ _ => false
  | .undo _ => state.past.isEmpty
  | .redo _ => state.future.isEmpty

/-- The operations a history does something with. -/
def effective (state : HistoryState σ) : List (HistoryOp σ) → List (HistoryOp σ)
  | [] => []
  | op :: ops =>
    if state.refuses op then effective state ops else op :: effective (op.act state).1 ops

/-! ## Invariants -/

/-- What holds of every history: no more entries than the bound, and a burst of records has
nothing to redo. -/
structure HistoryState.Wf (state : HistoryState σ) : Prop where
  bound : state.past.length + state.future.length ≤ maxHistory
  burst : state.lastTag ≠ none → state.future = []

theorem shiftPast_eq (past : List σ) : shiftPast past = past.drop (past.length - maxHistory) := by
  induction past with
  | nil => rfl
  | cons x past ih =>
    rw [shiftPast]
    split_ifs with h
    · rw [ih, List.length_cons, Nat.sub_add_comm (by rw [List.length_cons] at h; omega),
        List.drop_succ_cons]
    · rw [Nat.sub_eq_zero_of_le (Nat.le_of_not_lt h), List.drop_zero]

theorem exists_shiftPast (past : List σ) : ∃ dropped, past = dropped ++ shiftPast past := by
  refine ⟨past.take (past.length - maxHistory), ?_⟩
  rw [shiftPast_eq, List.take_append_drop]

theorem length_shiftPast_le (past : List σ) : (shiftPast past).length ≤ maxHistory := by
  rw [shiftPast_eq, List.length_drop]
  omega

theorem shiftPast_of_le {past : List σ} (h : past.length ≤ maxHistory) : shiftPast past = past := by
  rw [shiftPast_eq, Nat.sub_eq_zero_of_le h, List.drop_zero]

/-! ## One operation -/

section

variable (past future : List σ) (tag : Option String) (current shown : σ)

theorem undo_append : undo ⟨past ++ [shown], future, tag⟩ current =
    some (⟨past, future ++ [current], none⟩, shown) := by
  simp [undo]

theorem redo_append : redo ⟨past, future ++ [shown], tag⟩ current =
    some (⟨shiftPast (past ++ [current]), future, none⟩, shown) := by
  simp [redo]

@[simp] theorem act_record (state : HistoryState σ) (snapshot : σ) :
    (HistoryOp.record snapshot tag).act state = (record state snapshot tag, none) := rfl

@[simp] theorem act_undo_append : (HistoryOp.undo current).act ⟨past ++ [shown], future, tag⟩ =
    (⟨past, future ++ [current], none⟩, some shown) := by
  rw [HistoryOp.act, undo_append]

@[simp] theorem act_redo_nil :
    (HistoryOp.redo current).act ⟨past, [], tag⟩ = (⟨past, [], tag⟩, none) := rfl

@[simp] theorem act_redo_append : (HistoryOp.redo current).act ⟨past, future ++ [shown], tag⟩ =
    (⟨shiftPast (past ++ [current]), future, none⟩, some shown) := by
  rw [HistoryOp.act, redo_append]

namespace Zipper

@[simp] theorem act_record (z : HistoryState σ) (snapshot : σ) :
    act (.record snapshot tag) z = (record z snapshot tag, none) := rfl

@[simp] theorem act_undo (z : HistoryState σ) : act (.undo current) z =
    (HistoryOp.undo current).act z := rfl

@[simp] theorem act_redo_nil :
    act (.redo current) ⟨past, [], tag⟩ = (⟨past, [], tag⟩, none) := rfl

@[simp] theorem act_redo_append : act (.redo current) ⟨past, future ++ [shown], tag⟩ =
    (⟨past ++ [current], future, none⟩, some shown) := by
  simp [act, redo]

theorem restrict_of_bound {z : HistoryState σ}
    (h : z.past.length + z.future.length ≤ maxHistory) : restrict z = z := by
  rw [restrict, Nat.sub_eq_zero_of_le h, List.drop_zero]

end Zipper

end

/-- A redo right after an undo brings everything back. -/
theorem redo_undo {state state' : HistoryState σ} {current shown : σ} (h : state.Wf)
    (hundo : undo state current = some (state', shown)) :
    redo state' shown = some (⟨state.past, state.future, none⟩, current) := by
  obtain ⟨past, future, tag⟩ := state
  rcases List.eq_nil_or_concat' past with rfl | ⟨past, last, rfl⟩
  · cases hundo
  · rw [undo_append] at hundo
    obtain ⟨rfl, rfl⟩ := Prod.mk.inj (Option.some.inj hundo)
    rw [redo_append, shiftPast_of_le (Nat.le_trans (Nat.le_add_right _ _) h.bound)]

section

variable {state : HistoryState σ} (h : state.Wf)

include h

/-- A record leaves nothing to redo. -/
theorem future_record (snapshot : σ) (tag : Option String) :
    (record state snapshot tag).future = [] := by
  unfold record
  split_ifs with hburst
  · exact h.burst (hburst.2 ▸ hburst.1)
  · rfl

theorem wf_act (op : HistoryOp σ) : (op.act state).1.Wf := by
  obtain ⟨past, future, tag⟩ := state
  have hbound := h.bound
  cases op with
  | record snapshot tag' =>
    rw [act_record]
    refine ⟨?_, fun _ => future_record h snapshot tag'⟩
    rw [future_record h]
    unfold record
    split_ifs
    · exact Nat.le_trans (Nat.le_add_right _ _) hbound
    · exact length_shiftPast_le _
  | undo current =>
    rcases List.eq_nil_or_concat' past with rfl | ⟨past, last, rfl⟩
    · exact h
    · rw [act_undo_append]
      refine ⟨?_, fun htag => absurd rfl htag⟩
      simp at hbound ⊢
      omega
  | redo current =>
    rcases List.eq_nil_or_concat' future with rfl | ⟨future, last, rfl⟩
    · exact h
    · rw [act_redo_append]
      refine ⟨?_, fun htag => absurd rfl htag⟩
      rw [shiftPast_eq]
      simp at hbound ⊢
      omega

/-- One operation is that of the zipper, of which the last ten entries are left. -/
theorem act_eq_restrict (op : HistoryOp σ) :
    op.act state = (Zipper.restrict (Zipper.act op state).1, (Zipper.act op state).2) := by
  have hwf := wf_act h op
  obtain ⟨past, future, tag⟩ := state
  have hbound := h.bound
  cases op with
  | record snapshot tag' =>
    rw [act_record, Zipper.act_record]
    unfold record Zipper.record
    split_ifs
    · rw [Zipper.restrict_of_bound hbound]
    · rw [shiftPast_eq]
      rfl
  | undo current =>
    rw [Zipper.act_undo, Zipper.restrict_of_bound hwf.bound]
  | redo current =>
    rcases List.eq_nil_or_concat' future with rfl | ⟨future, last, rfl⟩
    · rw [act_redo_nil, Zipper.act_redo_nil, Zipper.restrict_of_bound hbound]
    · -- as many entries are behind a redo as in front of it
      have hkept : (past ++ [current]).length + future.length ≤ maxHistory := by
        simp at hbound ⊢
        omega
      rw [act_redo_append, Zipper.act_redo_append, Zipper.restrict_of_bound hkept,
        shiftPast_of_le (Nat.le_trans (Nat.le_add_right _ _) hkept)]

end

/-! ## Runs and the zipper -/

theorem wf_runHistory {state : HistoryState σ} (h : state.Wf) (ops : List (HistoryOp σ)) :
    (runHistory state ops).1.Wf := by
  induction ops generalizing state with
  | nil => exact h
  | cons op ops ih => exact ih (wf_act h op)

theorem runHistory_eq_runRestricted {state : HistoryState σ} (h : state.Wf)
    (ops : List (HistoryOp σ)) : runHistory state ops = Zipper.runRestricted state ops := by
  induction ops generalizing state with
  | nil => rfl
  | cons op ops ih =>
    have hact := act_eq_restrict h op
    have hwf := wf_act h op
    rw [runHistory, Zipper.runRestricted]
    rw [hact] at hwf ⊢
    dsimp only
    rw [ih hwf]

/-- A history is a zipper whose oldest entries are forgotten. -/
def Forgets (state z : HistoryState σ) : Prop :=
  ∃ old, z = ⟨old ++ state.past, state.future, state.lastTag⟩

theorem act_of_refuses {state : HistoryState σ} {op : HistoryOp σ}
    (h : state.refuses op = true) : op.act state = (state, none) := by
  obtain ⟨past, future, tag⟩ := state
  cases op with
  | record snapshot tag' => cases h
  | undo current =>
    obtain rfl := List.isEmpty_iff.1 h
    rfl
  | redo current =>
    obtain rfl := List.isEmpty_iff.1 h
    rfl

/-- What a history does something with shows the same as the whole zipper. -/
theorem forgets_act {state z : HistoryState σ} {op : HistoryOp σ} (h : Forgets state z)
    (heffective : state.refuses op = false) :
    Forgets (op.act state).1 (Zipper.act op z).1 ∧ (op.act state).2 = (Zipper.act op z).2 := by
  obtain ⟨old, rfl⟩ := h
  obtain ⟨past, future, tag⟩ := state
  cases op with
  | record snapshot tag' =>
    rw [act_record, Zipper.act_record]
    refine ⟨?_, rfl⟩
    unfold record Zipper.record
    dsimp only
    split_ifs
    · exact ⟨old, rfl⟩
    · obtain ⟨dropped, hdropped⟩ := exists_shiftPast (past ++ [snapshot])
      refine ⟨old ++ dropped, ?_⟩
      dsimp only
      rw [List.append_assoc, List.append_assoc, ← hdropped]
  | undo current =>
    rcases List.eq_nil_or_concat' past with rfl | ⟨past, last, rfl⟩
    · cases heffective
    · dsimp only
      rw [Zipper.act_undo, act_undo_append, ← List.append_assoc, act_undo_append]
      exact ⟨⟨old, rfl⟩, rfl⟩
  | redo current =>
    rcases List.eq_nil_or_concat' future with rfl | ⟨future, last, rfl⟩
    · cases heffective
    · dsimp only
      rw [Zipper.act_redo_append, act_redo_append]
      refine ⟨?_, rfl⟩
      obtain ⟨dropped, hdropped⟩ := exists_shiftPast (past ++ [current])
      refine ⟨old ++ dropped, ?_⟩
      dsimp only
      rw [List.append_assoc, List.append_assoc, ← hdropped]

theorem forgets_run {state z : HistoryState σ} (h : Forgets state z) (ops : List (HistoryOp σ)) :
    Forgets (runHistory state ops).1 (Zipper.run z (effective state ops)).1 ∧
      (runHistory state ops).2 = (Zipper.run z (effective state ops)).2 := by
  induction ops generalizing state z with
  | nil => exact ⟨h, rfl⟩
  | cons op ops ih =>
    rw [effective]
    split_ifs with hrefused
    · rw [runHistory, act_of_refuses hrefused]
      exact ih h
    · obtain ⟨hforgets, hshown⟩ := forgets_act h (by simpa using hrefused)
      obtain ⟨hend, hall⟩ := ih hforgets
      refine ⟨hend, ?_⟩
      rw [runHistory, Zipper.run]
      dsimp only
      rw [hshown, hall]

/-! ## What is shown -/

/-- The entries of a history were all given to it. -/
def HistoryState.Within (state : HistoryState σ) (given : List σ) : Prop :=
  ∀ x, x ∈ state.past ∨ x ∈ state.future → x ∈ given

theorem mem_of_mem_shiftPast {past : List σ} {x : σ} (h : x ∈ shiftPast past) : x ∈ past := by
  rw [shiftPast_eq] at h
  exact List.mem_of_mem_drop h

section

variable {state : HistoryState σ} {given : List σ} (h : state.Within given)

include h

theorem within_record (snapshot : σ) (tag : Option String) :
    (record state snapshot tag).Within (given ++ [snapshot]) := by
  intro x hx
  unfold record at hx
  split_ifs at hx
  · exact List.mem_append_left _ (h x hx)
  · rcases hx with hx | hx
    · rcases List.mem_append.1 (mem_of_mem_shiftPast hx) with hx | hx
      · exact List.mem_append_left _ (h x (.inl hx))
      · exact List.mem_append_right _ hx
    · cases hx

/-- What is shown was given, and what is kept has been given by then. -/
theorem within_act (op : HistoryOp σ) : (op.act state).1.Within (given ++ [op.graph]) ∧
    ∀ shown, (op.act state).2 = some shown → shown ∈ given := by
  obtain ⟨past, future, tag⟩ := state
  cases op with
  | record snapshot tag' =>
    exact ⟨within_record h snapshot tag', fun shown hshown => by cases hshown⟩
  | undo current =>
    rcases List.eq_nil_or_concat' past with rfl | ⟨past, last, rfl⟩
    · exact ⟨fun x hx => List.mem_append_left _ (h x hx), fun shown hshown => by cases hshown⟩
    · rw [act_undo_append]
      refine ⟨?_, ?_⟩
      · intro x hx
        rcases hx with hx | hx
        · exact List.mem_append_left _ (h x (.inl (List.mem_append_left _ hx)))
        · rcases List.mem_append.1 hx with hx | hx
          · exact List.mem_append_left _ (h x (.inr hx))
          · exact List.mem_append_right _ hx
      · intro shown hshown
        cases hshown
        exact h _ (.inl (by simp))
  | redo current =>
    rcases List.eq_nil_or_concat' future with rfl | ⟨future, last, rfl⟩
    · exact ⟨fun x hx => List.mem_append_left _ (h x hx), fun shown hshown => by cases hshown⟩
    · rw [act_redo_append]
      refine ⟨?_, ?_⟩
      · intro x hx
        rcases hx with hx | hx
        · rcases List.mem_append.1 (mem_of_mem_shiftPast hx) with hx | hx
          · exact List.mem_append_left _ (h x (.inl hx))
          · exact List.mem_append_right _ hx
        · exact List.mem_append_left _ (h x (.inr (List.mem_append_left _ hx)))
      · intro shown hshown
        cases hshown
        exact h _ (.inr (by simp))

end

theorem within_runHistory {state : HistoryState σ} {given : List σ} (h : state.Within given)
    (ops : List (HistoryOp σ)) :
    (runHistory state ops).1.Within (given ++ ops.map HistoryOp.graph) := by
  induction ops generalizing state given with
  | nil =>
    rw [List.map_nil, List.append_nil]
    exact h
  | cons op ops ih =>
    have hrest := ih (within_act h op).1
    rw [List.append_assoc] at hrest
    exact hrest

/-- A burst of records with one tag is its first one. -/
theorem runHistory_burst (state : HistoryState σ) (snapshot : σ) (tag : String)
    (snapshots : List σ) :
    (runHistory state (.record snapshot (some tag) ::
      snapshots.map fun x => HistoryOp.record x (some tag))).1 =
        record state snapshot (some tag) := by
  have htag : (record state snapshot (some tag)).lastTag = some tag := by
    unfold record
    split_ifs with hburst
    · exact hburst.2.symm
    · rfl
  rw [runHistory, act_record]
  dsimp only
  generalize record state snapshot (some tag) = state at htag ⊢
  induction snapshots with
  | nil => rfl
  | cons x snapshots ih =>
    have hkeep : record state x (some tag) = state := by
      rw [record, if_pos ⟨by simp, htag.symm⟩]
    rw [List.map_cons, runHistory, act_record]
    dsimp only
    rw [hkeep, ih]

/-! ## The history -/

theorem wf_emptyHistory : (emptyHistory : HistoryState σ).Wf :=
  ⟨Nat.zero_le _, fun _ => rfl⟩

/-- Every run of records, undos and redos is that of the zipper restricted to its last ten
entries after each operation, and shows what the whole zipper shows when it is given what the
history does something with. In what it reaches, an undo and a redo bring everything back, a
burst of records with one tag is one record, a record leaves nothing to redo, no more than ten
entries are kept, and what is shown next was given before. -/
theorem history_restricts_zipper (ops : List (HistoryOp σ)) :
    runHistory emptyHistory ops = Zipper.runRestricted emptyHistory ops ∧
      (∃ old, (Zipper.run emptyHistory (effective emptyHistory ops)).1 =
        ⟨old ++ (runHistory emptyHistory ops).1.past, (runHistory emptyHistory ops).1.future,
          (runHistory emptyHistory ops).1.lastTag⟩) ∧
      (runHistory emptyHistory ops).2 =
        (Zipper.run emptyHistory (effective emptyHistory ops)).2 ∧
      (∀ current state' shown,
        undo (runHistory emptyHistory ops).1 current = some (state', shown) →
          redo state' shown = some (⟨(runHistory emptyHistory ops).1.past,
            (runHistory emptyHistory ops).1.future, none⟩, current)) ∧
      (∀ snapshot tag (snapshots : List σ), (runHistory (runHistory emptyHistory ops).1
        (.record snapshot (some tag) ::
          snapshots.map fun x => HistoryOp.record x (some tag))).1 =
            record (runHistory emptyHistory ops).1 snapshot (some tag)) ∧
      (∀ snapshot tag, (record (runHistory emptyHistory ops).1 snapshot tag).future = []) ∧
      (runHistory emptyHistory ops).1.past.length ≤ maxHistory ∧
      ∀ (op : HistoryOp σ) shown, (op.act (runHistory emptyHistory ops).1).2 = some shown →
        shown ∈ ops.map HistoryOp.graph := by
  have hwf := wf_runHistory (@wf_emptyHistory σ) ops
  obtain ⟨hforgets, hshown⟩ := @forgets_run σ emptyHistory emptyHistory ⟨[], rfl⟩ ops
  have hwithin : (runHistory (emptyHistory : HistoryState σ) ops).1.Within
      (ops.map HistoryOp.graph) := by
    apply @within_runHistory σ emptyHistory []
    rintro x (hx | hx)
    · cases hx
    · cases hx
  exact ⟨runHistory_eq_runRestricted wf_emptyHistory ops, hforgets, hshown,
    fun current state' shown hundo => redo_undo hwf hundo, runHistory_burst _,
    future_record hwf, Nat.le_trans (Nat.le_add_right _ _) hwf.bound,
    fun op => (within_act hwithin op).2⟩

/-- A burst of two changes is taken back and done again. -/
theorem history_restricts_zipper_burst :
    redo ⟨[], [2], none⟩ 0 = some ((⟨[0], [], none⟩ : HistoryState Nat), 2) :=
  (history_restricts_zipper [.record 0 (some "label"), .record 1 (some "label")]).2.2.2.1
    2 ⟨[], [2], none⟩ 0 (by decide)

end Konnekt.Editor
