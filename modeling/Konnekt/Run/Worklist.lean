import Konnekt.Go.Value
import Mathlib.Logic.Relation

/-!
# Worklists with a cap

A queue of items is worked off from the front. Handling an item may ask for
further items, which go to the end; an item that is not ready is dropped without
being counted. The capped loop is compared with the uncapped run, which is a step
relation: the loop was cut off exactly when the run would handle more items.
-/

namespace Worklist

open Go Relation

variable {σ ι : Type}

/-- What handling one item leaves behind. -/
structure Turn (σ ι : Type) where
  state : σ
  next : List ι
  /-- The run ends here, whatever is still queued. -/
  stop : Bool

/-- A worklist in progress, with the number of items handled. -/
structure Config (σ ι : Type) where
  queue : List ι
  count : Nat
  state : σ

section

variable (ready : ι → Bool) (act : σ → ι → Outcome (Turn σ ι))

/-- The configuration after a turn. -/
def Config.after (rest : List ι) (count : Nat) (t : Turn σ ι) : Config σ ι :=
  ⟨rest ++ t.next, count + 1, t.state⟩

/-- Handle at most `n` items. The flag says whether a turn stopped the run. -/
def loop : Nat → Config σ ι → Outcome (Config σ ι × Bool)
  | 0, c => .ok (c, false)
  | n + 1, c =>
    match c.queue.dropWhile fun i => !ready i with
    | [] => .ok ({ c with queue := [] }, false)
    | item :: rest => do
      let t ← act c.state item
      if t.stop then return (Config.after rest c.count t, true)
      loop n (Config.after rest c.count t)

/-- One step of the run without a cap. -/
inductive Step : Config σ ι → Config σ ι → Prop
  | skip {item : ι} {rest : List ι} {n : Nat} {s : σ} (h : ready item = false) :
      Step ⟨item :: rest, n, s⟩ ⟨rest, n, s⟩
  | act {item : ι} {rest : List ι} {n : Nat} {s : σ} {t : Turn σ ι} (h : ready item = true)
      (hact : act s item = .ok t) (hstop : t.stop = false) :
      Step ⟨item :: rest, n, s⟩ (Config.after rest n t)

/-- The configurations of the run without a cap. -/
def Steps : Config σ ι → Config σ ι → Prop := ReflTransGen (Step ready act)

/-- The run without a cap handles more than `k` items. -/
def Exceeds (k : Nat) (c : Config σ ι) : Prop :=
  ∃ d, Steps ready act c d ∧ d.count = k ∧ ∃ item ∈ d.queue, ready item = true

/-- The run without a cap works its queue off after handling exactly `k` items. -/
def DrainsAt (k : Nat) (c : Config σ ι) : Prop :=
  ∃ d, Steps ready act c d ∧ d.count = k ∧ d.queue = []

variable {ready act}

/-! ## Single steps -/

theorem Step.count_le {c d : Config σ ι} (h : Step ready act c d) : c.count ≤ d.count := by
  cases h with
  | skip => exact Nat.le_refl _
  | act => exact Nat.le_succ _

theorem Steps.count_le {c d : Config σ ι} (h : Steps ready act c d) : c.count ≤ d.count := by
  induction h with
  | refl => exact Nat.le_refl _
  | tail _ hstep ih => exact Nat.le_trans ih hstep.count_le

/-- Until another item is handled, the queue loses exactly items that are not ready. -/
theorem Steps.mem_queue_iff {c d : Config σ ι} (h : Steps ready act c d)
    (hcount : d.count = c.count) {item : ι} (hready : ready item = true) :
    item ∈ d.queue ↔ item ∈ c.queue := by
  induction h with
  | refl => exact Iff.rfl
  | tail hsteps hstep ih =>
    have hle := Steps.count_le hsteps
    cases hstep with
    | @skip other rest n s hother =>
      rw [← ih hcount, List.mem_cons]
      refine ⟨.inr, fun hmem => hmem.resolve_left ?_⟩
      rintro rfl
      rw [hready] at hother
      cases hother
    | act =>
      simp only [Config.after] at hcount hle
      omega

/-- Dropping the items that are not ready is a run of skips. -/
theorem steps_dropWhile (q : List ι) (n : Nat) (s : σ) :
    Steps ready act ⟨q, n, s⟩ ⟨q.dropWhile fun i => !ready i, n, s⟩ := by
  induction q with
  | nil => exact .refl
  | cons item q ih =>
    by_cases h : ready item = true
    · rw [List.dropWhile_cons_of_neg (by simp [h])]
      exact .refl
    · rw [List.dropWhile_cons_of_pos (by simp [h])]
      exact .head (.skip (Bool.eq_false_iff.2 h)) ih

/-- A run from a queue goes through the queue without its leading unready items, unless it
stops among them. -/
private theorem steps_through {q : List ι} {n : Nat} {s : σ} {d : Config σ ι}
    (h : Steps ready act ⟨q, n, s⟩ d) :
    (∃ r, d = ⟨r, n, s⟩ ∧ (q.dropWhile fun i => !ready i) <:+ r) ∨
      Steps ready act ⟨q.dropWhile fun i => !ready i, n, s⟩ d := by
  induction q generalizing d with
  | nil => exact .inr h
  | cons item q ih =>
    by_cases hready : ready item = true
    · rw [List.dropWhile_cons_of_neg (by simp [hready])]
      exact .inr h
    · rw [List.dropWhile_cons_of_pos (by simp [hready])]
      cases ReflTransGen.cases_head h with
      | inl heq =>
        exact .inl ⟨item :: q, heq.symm,
          (List.dropWhile_suffix _).trans (List.suffix_cons _ _)⟩
      | inr hhead =>
        obtain ⟨c, hstep, hrest⟩ := hhead
        cases hstep with
        | skip => exact ih hrest
        | act htrue => exact absurd htrue hready

/-- A run that moves on from a ready item takes its turn. -/
private theorem steps_act {item : ι} {rest : List ι} {n : Nat} {s : σ} {d : Config σ ι}
    (hready : ready item = true) (h : Steps ready act ⟨item :: rest, n, s⟩ d) :
    d = ⟨item :: rest, n, s⟩ ∨
      ∃ t, act s item = .ok t ∧ t.stop = false ∧ Steps ready act (Config.after rest n t) d := by
  cases ReflTransGen.cases_head h with
  | inl heq => exact .inl heq.symm
  | inr hhead =>
    obtain ⟨c, hstep, hrest⟩ := hhead
    cases hstep with
    | skip hfalse =>
      rw [hready] at hfalse
      cases hfalse
    | act _ hact hstop => exact .inr ⟨_, hact, hstop, hrest⟩

/-- Nothing follows an empty queue. -/
private theorem eq_of_steps_nil {n : Nat} {s : σ} {d : Config σ ι}
    (h : Steps ready act ⟨[], n, s⟩ d) : d = ⟨[], n, s⟩ := by
  cases ReflTransGen.cases_head h with
  | inl heq => exact heq.symm
  | inr hhead =>
    obtain ⟨c, hstep, -⟩ := hhead
    cases hstep

/-- Items that are handled alike in every state are handled one after the other. -/
theorem steps_flatMap (next : ι → List ι) {q : List ι}
    (hq : ∀ item ∈ q, ready item = true ∧ ∀ s, ∃ s', act s item = .ok ⟨s', next item, false⟩)
    (rest : List ι) (n : Nat) (s : σ) : ∃ s',
      Steps ready act ⟨q ++ rest, n, s⟩ ⟨rest ++ q.flatMap next, n + q.length, s'⟩ := by
  induction q generalizing rest n s with
  | nil => exact ⟨s, by simpa using .refl⟩
  | cons item q ih =>
    obtain ⟨hready, hact⟩ := hq item List.mem_cons_self
    obtain ⟨t, hturn⟩ := hact s
    obtain ⟨s', hsteps⟩ := ih (fun i hi => hq i (List.mem_cons_of_mem _ hi))
      (rest ++ next item) (n + 1) t
    have hstep : Step ready act ⟨item :: (q ++ rest), n, s⟩
        (Config.after (q ++ rest) n ⟨t, next item, false⟩) := .act hready hturn rfl
    rw [Config.after, List.append_assoc] at hstep
    rw [List.append_assoc, Nat.add_assoc, Nat.add_comm 1] at hsteps
    exact ⟨s', .head hstep hsteps⟩

/-! ## The capped loop -/

/-- The first item the loop handles is ready. -/
private theorem ready_of_dropWhile {q rest : List ι} {item : ι}
    (hq : (q.dropWhile fun i => !ready i) = item :: rest) : ready item = true := by
  have hhead := List.head_dropWhile_not (fun i => !ready i) (l := q)
    (by rw [hq]; exact List.cons_ne_nil _ _)
  simpa [hq] using hhead

/-- The loop by cases: nothing ready is left, the turn stops the run, or it goes on. -/
theorem loop_succ_cases {n : Nat} {c c' : Config σ ι} {stopped : Bool}
    (h : loop ready act (n + 1) c = .ok (c', stopped)) :
    ((c.queue.dropWhile fun i => !ready i) = [] ∧ c' = { c with queue := [] } ∧
      stopped = false) ∨
    ∃ item rest t, (c.queue.dropWhile fun i => !ready i) = item :: rest ∧ ready item = true ∧
      act c.state item = .ok t ∧
      (t.stop = true ∧ c' = Config.after rest c.count t ∧ stopped = true ∨
        t.stop = false ∧ loop ready act n (Config.after rest c.count t) = .ok (c', stopped)) := by
  rw [loop] at h
  cases hq : c.queue.dropWhile fun i => !ready i with
  | nil =>
    rw [hq] at h
    cases h
    exact .inl ⟨rfl, rfl, rfl⟩
  | cons item rest =>
    rw [hq] at h
    cases hturn : act c.state item with
    | err m => simp [hturn] at h
    | panic m => simp [hturn] at h
    | ok t =>
      simp only [hturn, Outcome.ok_bind] at h
      refine .inr ⟨item, rest, t, rfl, ready_of_dropWhile hq, hturn, ?_⟩
      cases hstop : t.stop with
      | true =>
        rw [if_pos hstop] at h
        cases h
        exact .inl ⟨rfl, rfl, rfl⟩
      | false =>
        rw [if_neg (by rw [hstop]; exact Bool.false_ne_true)] at h
        exact .inr ⟨rfl, h⟩

/-- What holds of the count and the state, and is kept by every turn, holds at the end. -/
theorem loop_induction {P : Nat → σ → Prop}
    (hact : ∀ n s item t, P n s → ready item = true → act s item = .ok t → P (n + 1) t.state)
    (n : Nat) {c c' : Config σ ι} {stopped : Bool} (h : loop ready act n c = .ok (c', stopped))
    (hc : P c.count c.state) : P c'.count c'.state := by
  induction n generalizing c with
  | zero =>
    cases h
    exact hc
  | succ n ih =>
    obtain ⟨-, rfl, -⟩ | ⟨item, rest, t, -, hready, hturn, hgo⟩ := loop_succ_cases h
    · exact hc
    · have hnext := hact c.count c.state item t hc hready hturn
      obtain ⟨-, rfl, -⟩ | ⟨-, hloop⟩ := hgo
      · exact hnext
      · exact ih hloop hnext

/-- A loop no turn stopped is a run without a cap. -/
theorem steps_of_loop (n : Nat) {c c' : Config σ ι} (h : loop ready act n c = .ok (c', false)) :
    Steps ready act c c' := by
  induction n generalizing c with
  | zero =>
    cases h
    exact .refl
  | succ n ih =>
    have hskip : Steps ready act c ⟨_, c.count, c.state⟩ :=
      steps_dropWhile c.queue c.count c.state
    obtain ⟨hq, rfl, -⟩ | ⟨item, rest, t, hq, hready, hturn, hgo⟩ := loop_succ_cases h
    · rwa [hq] at hskip
    · rw [hq] at hskip
      obtain ⟨-, -, hfalse⟩ | ⟨hstop, hloop⟩ := hgo
      · cases hfalse
      · exact hskip.trans (.head (.act hready hturn hstop) (ih hloop))

/-- The loop handles at most `n` items, and fewer only if nothing is left to handle. -/
theorem loop_count (n : Nat) {c c' : Config σ ι} (h : loop ready act n c = .ok (c', false)) :
    c'.count = c.count + n ∨ c'.count < c.count + n ∧ c'.queue = [] := by
  induction n generalizing c with
  | zero =>
    cases h
    exact .inl rfl
  | succ n ih =>
    obtain ⟨-, rfl, -⟩ | ⟨item, rest, t, -, -, -, hgo⟩ := loop_succ_cases h
    · exact .inr ⟨by simp, rfl⟩
    · obtain ⟨-, -, hfalse⟩ | ⟨-, hloop⟩ := hgo
      · cases hfalse
      · obtain hcount | ⟨hcount, hnil⟩ := ih hloop
        · exact .inl (by simp only [Config.after] at hcount; omega)
        · exact .inr ⟨by simp only [Config.after] at hcount; omega, hnil⟩

/-- The run without a cap passes through the configuration the loop ends in. -/
theorem loop_of_steps (n : Nat) {c d : Config σ ι} (h : Steps ready act c d)
    (hd : d.count = c.count + n) :
    ∃ c', loop ready act n c = .ok (c', false) ∧ c'.count = d.count ∧ Steps ready act c' d := by
  induction n generalizing c with
  | zero => exact ⟨c, rfl, hd.symm, h⟩
  | succ n ih =>
    have hgo : Steps ready act ⟨c.queue.dropWhile fun i => !ready i, c.count, c.state⟩ d := by
      obtain ⟨r, rfl, -⟩ | hgo := steps_through h
      · simp only at hd
        omega
      · exact hgo
    cases hq : c.queue.dropWhile fun i => !ready i with
    | nil =>
      rw [hq] at hgo
      rw [eq_of_steps_nil hgo] at hd
      simp only at hd
      omega
    | cons item rest =>
      rw [hq] at hgo
      obtain rfl | ⟨t, hturn, hstop, hrest⟩ := steps_act (ready_of_dropWhile hq) hgo
      · simp only at hd
        omega
      have hcount : d.count = (Config.after rest c.count t).count + n := by
        simp only [Config.after]
        omega
      obtain ⟨c', hloop, hc'⟩ := ih hrest hcount
      refine ⟨c', ?_, hc'⟩
      rw [loop, hq]
      simp only [hturn, Outcome.ok_bind, hstop]
      exact hloop

/-- A run that drains within the budget is the loop's. -/
theorem loop_of_drained (n : Nat) {c d : Config σ ι} (h : Steps ready act c d)
    (hnil : d.queue = []) (hd : d.count < c.count + n) :
    loop ready act n c = .ok (d, false) := by
  induction n generalizing c with
  | zero =>
    have hle := h.count_le
    omega
  | succ n ih =>
    have hgo : Steps ready act ⟨c.queue.dropWhile fun i => !ready i, c.count, c.state⟩ d := by
      obtain ⟨r, rfl, hsuffix⟩ | hgo := steps_through h
      · obtain rfl : r = [] := hnil
        rw [List.suffix_nil.1 hsuffix]
        exact .refl
      · exact hgo
    rw [loop]
    cases hq : c.queue.dropWhile fun i => !ready i with
    | nil =>
      rw [hq] at hgo
      rw [eq_of_steps_nil hgo]
    | cons item rest =>
      rw [hq] at hgo
      obtain rfl | ⟨t, hturn, hstop, hrest⟩ := steps_act (ready_of_dropWhile hq) hgo
      · cases hnil
      · simp only [hturn, Outcome.ok_bind, hstop]
        exact ih hrest (by simp only [Config.after]; omega)

/-- A loop is stopped by a turn only. -/
theorem loop_not_stopped (hstop : ∀ s item t, act s item = .ok t → t.stop = false) (n : Nat)
    {c c' : Config σ ι} {stopped : Bool} (h : loop ready act n c = .ok (c', stopped)) :
    stopped = false := by
  induction n generalizing c with
  | zero =>
    cases h
    rfl
  | succ n ih =>
    obtain ⟨-, -, hfalse⟩ | ⟨item, rest, t, -, -, hturn, hgo⟩ := loop_succ_cases h
    · exact hfalse
    · obtain ⟨htrue, -⟩ | ⟨-, hloop⟩ := hgo
      · rw [hstop _ _ _ hturn] at htrue
        cases htrue
      · exact ih hloop

/-- The run handles more than the loop may exactly when the loop leaves a ready item. -/
theorem exceeds_iff (n : Nat) (c : Config σ ι) :
    Exceeds ready act (c.count + n) c ↔
      ∃ c', loop ready act n c = .ok (c', false) ∧ c'.count = c.count + n ∧
        ∃ item ∈ c'.queue, ready item = true := by
  constructor
  · rintro ⟨d, hsteps, hd, item, hmem, hready⟩
    obtain ⟨c', hloop, hcount, hrest⟩ := loop_of_steps n hsteps hd
    have hmem' := (hrest.mem_queue_iff hcount.symm hready).1 hmem
    exact ⟨c', hloop, hcount.trans hd, item, hmem', hready⟩
  · rintro ⟨c', hloop, hcount, hmem⟩
    exact ⟨c', steps_of_loop n hloop, hcount, hmem⟩

/-- The run drains after as many items as the loop may handle exactly when the loop uses
its whole budget and leaves no ready item. -/
theorem drainsAt_iff (n : Nat) (c : Config σ ι) :
    DrainsAt ready act (c.count + n) c ↔
      ∃ c', loop ready act n c = .ok (c', false) ∧ c'.count = c.count + n ∧
        ∀ item ∈ c'.queue, ready item = false := by
  constructor
  · rintro ⟨d, hsteps, hd, hnil⟩
    obtain ⟨c', hloop, hcount, hrest⟩ := loop_of_steps n hsteps hd
    refine ⟨c', hloop, hcount.trans hd, fun item hmem => ?_⟩
    by_contra hready
    have hmem' := (hrest.mem_queue_iff hcount.symm (Bool.not_eq_false _ ▸ hready)).2 hmem
    rw [hnil] at hmem'
    cases hmem'
  · rintro ⟨c', hloop, hcount, hnone⟩
    have hskip : Steps ready act c' ⟨_, c'.count, c'.state⟩ :=
      steps_dropWhile c'.queue c'.count c'.state
    have hnil : (c'.queue.dropWhile fun i => !ready i) = [] :=
      List.dropWhile_eq_nil_iff.2 fun item hmem => by simp [hnone item hmem]
    rw [hnil] at hskip
    exact ⟨_, (steps_of_loop n hloop).trans hskip, hcount, rfl⟩

/-! ## Weighted queues -/

/-- The weight of the items of a queue that are ready. -/
def load (ready : ι → Bool) (weight : ι → Nat) (q : List ι) : Nat :=
  ((q.filter ready).map weight).sum

theorem load_append (weight : ι → Nat) (p q : List ι) :
    load ready weight (p ++ q) = load ready weight p + load ready weight q := by
  rw [load, List.filter_append, List.map_append, List.sum_append]
  rfl

theorem load_dropWhile (weight : ι → Nat) (q : List ι) :
    load ready weight (q.dropWhile fun i => !ready i) = load ready weight q := by
  induction q with
  | nil => rfl
  | cons item q ih =>
    cases h : ready item with
    | false => simpa [h, load] using ih
    | true => simp [h]

/-- If an item weighs more than what handling it asks for, the weight of the queue bounds
the items that are handled. -/
theorem loop_load_le (weight : ι → Nat)
    (hact : ∀ s item t, ready item = true → act s item = .ok t →
      1 + load ready weight t.next ≤ weight item)
    (n : Nat) {c c' : Config σ ι} {stopped : Bool} (h : loop ready act n c = .ok (c', stopped)) :
    c'.count + load ready weight c'.queue ≤ c.count + load ready weight c.queue := by
  induction n generalizing c with
  | zero =>
    cases h
    exact Nat.le_refl _
  | succ n ih =>
    obtain ⟨-, rfl, -⟩ | ⟨item, rest, t, hq, hready, hturn, hgo⟩ := loop_succ_cases h
    · simp [load]
    · have hstep : (Config.after rest c.count t).count +
          load ready weight (Config.after rest c.count t).queue ≤
          c.count + load ready weight c.queue := by
        have hitem := hact c.state item t hready hturn
        have hqueue : load ready weight c.queue = weight item + load ready weight rest := by
          rw [← load_dropWhile, hq]
          simp [load, hready]
        simp only [Config.after, load_append, hqueue]
        omega
      obtain ⟨-, rfl, -⟩ | ⟨-, hloop⟩ := hgo
      · exact hstep
      · exact (ih hloop).trans hstep

end

end Worklist
