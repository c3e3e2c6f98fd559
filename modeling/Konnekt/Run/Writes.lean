import Mathlib.Data.List.Infix
import Mathlib.Data.List.Nodup
import Mathlib.Order.Basic

/-!
# Writes behind a display

A value is shown that a store keeps. A write sends the store a whole value computed from
what is shown; the store takes or refuses it at some later time, and the display hears of
that later still. A write is shown when it is sent, and taken back to what was shown
before where it is refused, or it is shown when it is known to be stored.
-/

namespace Writes

variable {α : Type}

/-- A value and the writes it was computed from, the last one first. -/
structure Version (α : Type) where
  value : α
  writes : List Nat := []
  deriving DecidableEq, Repr

/-- What the store has done with a write. -/
inductive Fate where
  | pending
  | stored
  | refused (reason : String)
  deriving DecidableEq, Repr

/-- A write of which the display has not heard: what it sent, and what was shown before. -/
structure Write (α : Type) where
  id : Nat
  next : Version α
  prev : Version α
  fate : Fate := .pending
  deriving DecidableEq, Repr

/-- When a write is shown: as it is sent, or once it is stored. -/
inductive Shows where
  | sent | stored
  deriving DecidableEq, Repr

structure Cell (α : Type) where
  shown : Version α
  stored : Version α
  inFlight : List (Write α) := []
  /-- How many writes have been sent; each is known by its number. -/
  count : Nat := 0
  /-- The writes that were stored, the last one first. -/
  order : List Nat := []
  deriving DecidableEq, Repr

namespace Cell

/-- What is shown is what is stored, and nothing is under way. -/
def load (a : α) : Cell α := { shown := ⟨a, []⟩, stored := ⟨a, []⟩ }

/-- Send what is computed from the shown value, if there is anything to send. -/
def begin (shows : Shows) (f : α → Option α) (c : Cell α) : Cell α :=
  match f c.shown.value with
  | none => c
  | some a =>
    let next : Version α := ⟨a, c.count :: c.shown.writes⟩
    { c with
      shown := match shows with
        | .sent => next
        | .stored => c.shown
      inFlight := c.inFlight ++ [{ id := c.count, next := next, prev := c.shown }]
      count := c.count + 1 }

def find (id : Nat) (c : Cell α) : Option (Write α) := c.inFlight.find? fun w => w.id == id

/-- The store takes a write, or refuses it for a reason. -/
def finish (id : Nat) (refusal : Option String) (c : Cell α) : Cell α :=
  match c.find id with
  | none => c
  | some w =>
    if w.fate = .pending then
      let known (fate : Fate) := c.inFlight.map fun w =>
        if w.id = id then { w with fate := fate } else w
      match refusal with
      | none => { c with stored := w.next, inFlight := known .stored, order := id :: c.order }
      | some reason => { c with inFlight := known (.refused reason) }
    else c

/-- The display hears of a write. A refusal is only one when there is a store at all. -/
def settle (shows : Shows) (attached : Bool) (id : Nat) (c : Cell α) : Cell α :=
  match c.find id with
  | none => c
  | some w =>
    let rest := c.inFlight.filter fun w => w.id ≠ id
    match w.fate, shows with
    | .pending, _ => c
    | .stored, .sent => { c with inFlight := rest }
    | .stored, .stored => { c with shown := w.next, inFlight := rest }
    | .refused _, .sent => { c with shown := if attached then w.prev else c.shown, inFlight := rest }
    | .refused _, .stored =>
      { c with shown := if attached then c.shown else w.next, inFlight := rest }

end Cell

/-- What happens to a cell. -/
inductive Act (α : Type) where
  | begin (f : α → Option α)
  | finish (id : Nat) (refusal : Option String)
  | settle (id : Nat)

def Cell.act (shows : Shows) (c : Cell α) : Act α → Cell α
  | .begin f => c.begin shows f
  | .finish id refusal => c.finish id refusal
  | .settle id => c.settle shows true id

/-- A write is refused that is in flight. -/
def Cell.Refuses (c : Cell α) (id : Nat) : Prop :=
  ∃ w reason, c.find id = some w ∧ w.fate = .refused reason

/-- Nothing that has been stored is gone from what is shown because another write was refused. -/
def Cell.Keeps (shows : Shows) (c : Cell α) : Act α → Prop
  | .settle id => c.Refuses id → ∀ i ∈ c.order, i ∈ c.shown.writes →
      i ∈ (c.settle shows true id).shown.writes
  | _ => True

/-- With nothing under way what is shown is what is stored. -/
def Cell.Agrees (c : Cell α) : Prop := c.inFlight = [] → c.shown.value = c.stored.value

/-- A step that keeps the display in order. Where a write is shown as it is sent, the store takes
writes in the order they were sent, and what is shown when a refusal is heard of is still what the
refused write sent. Where it is shown once it is stored, no other write is heard of after the last
stored one. -/
def Cell.InOrder : Shows → Cell α → Act α → Prop
  | _, _, .begin _ => True
  | .sent, c, .finish id none => (∃ w, c.find id = some w ∧ w.fate = .pending) →
      ∀ i ∈ c.order, i < id
  | .sent, c, .settle id => c.Refuses id → c.shown.writes.head? = some id
  | .stored, c, .settle id => (∃ w, c.find id = some w ∧ w.fate = .stored) →
      ∀ i, c.order.head? = some i → i = id ∨ (c.find i).isSome = true
  | _, _, .finish _ _ => True

/-! ## The parts of a step -/

section

variable {c : Cell α} {w : Write α} {id : Nat}

theorem Cell.mem_of_find (h : c.find id = some w) : w ∈ c.inFlight ∧ w.id = id :=
  ⟨List.mem_of_find?_eq_some h, by simpa using List.find?_some h⟩

/-- A write with another fate. -/
def Write.withFate (fate : Fate) (w : Write α) : Write α := { w with fate := fate }

/-- A write in flight after the store has taken or refused one: the same, or that one. -/
theorem mem_known {fate : Fate} {l : List (Write α)} {w' : Write α}
    (h : w' ∈ l.map fun w => if w.id = id then { w with fate := fate } else w) :
    w'.id ≠ id ∧ w' ∈ l ∨ w'.id = id ∧ ∃ w ∈ l, w.id = id ∧ w' = w.withFate fate := by
  obtain ⟨w, hw, rfl⟩ := List.mem_map.mp h
  by_cases hid : w.id = id
  · simp only [if_pos hid]
    exact .inr ⟨hid, w, hw, hid, rfl⟩
  · simp only [if_neg hid]
    exact .inl ⟨hid, hw⟩

theorem ids_known (fate : Fate) (l : List (Write α)) :
    (l.map fun w => if w.id = id then { w with fate := fate } else w).map Write.id =
      l.map Write.id := by
  rw [List.map_map]
  apply List.map_congr_left
  intro w _
  simp only [Function.comp_apply]
  split <;> rfl

end

/-- What holds of the writes of a cell however it shows them. -/
structure Cell.Known (c : Cell α) : Prop where
  nodup : (c.inFlight.map Write.id).Nodup
  sent : ∀ w ∈ c.inFlight, w.id < c.count
  taken : ∀ i ∈ c.order, i < c.count
  fates : ∀ w ∈ c.inFlight, w.id ∈ c.order ↔ w.fate = .stored

section

variable {c : Cell α} {w w' : Write α}

theorem Cell.Known.eq_of_id (h : c.Known) (hw : w ∈ c.inFlight) (hw' : w' ∈ c.inFlight)
    (hid : w.id = w'.id) : w = w' :=
  List.inj_on_of_nodup_map h.nodup hw hw' hid

theorem Cell.known_load (a : α) : (Cell.load a).Known :=
  ⟨List.nodup_nil, fun _ h => (nomatch h), fun _ h => (nomatch h), fun _ h => (nomatch h)⟩

theorem Cell.Known.begin (h : c.Known) (shows : Shows) (f : α → Option α) :
    (c.begin shows f).Known := by
  unfold Cell.begin
  split
  · exact h
  · rename_i a _
    refine ⟨?_, ?_, ?_, ?_⟩
    · simp only [List.map_append, List.map_cons, List.map_nil]
      rw [List.nodup_append]
      refine ⟨h.nodup, List.nodup_singleton _, fun i hi j hj => ?_⟩
      obtain ⟨w, hw, rfl⟩ := List.mem_map.mp hi
      rw [List.mem_singleton.mp hj]
      exact Nat.ne_of_lt (h.sent w hw)
    · intro w hw
      rcases List.mem_append.mp hw with hw | hw
      · exact Nat.lt_succ_of_lt (h.sent w hw)
      · rw [List.mem_singleton.mp hw]
        exact Nat.lt_succ_self _
    · exact fun i hi => Nat.lt_succ_of_lt (h.taken i hi)
    · intro w hw
      rcases List.mem_append.mp hw with hw | hw
      · exact h.fates w hw
      · rw [List.mem_singleton.mp hw]
        refine iff_of_false (fun hi => ?_) (by simp)
        exact absurd (h.taken _ hi) (Nat.lt_irrefl _)

theorem Cell.Known.finish (h : c.Known) (id : Nat) (refusal : Option String) :
    (c.finish id refusal).Known := by
  unfold Cell.finish
  split
  · exact h
  · rename_i w hfind
    obtain ⟨hw, hid⟩ := Cell.mem_of_find hfind
    split
    · rename_i hpending
      have hnot : id ∉ c.order := by
        intro hi
        rw [← hid, h.fates w hw, hpending] at hi
        cases hi
      cases refusal with
      | some reason =>
        refine ⟨by rw [ids_known]; exact h.nodup, fun w' hw' => ?_, h.taken, fun w' hw' => ?_⟩
        · rcases mem_known hw' with ⟨-, hw'⟩ | ⟨hw', -⟩
          · exact h.sent w' hw'
          · rw [hw', ← hid]
            exact h.sent w hw
        · rcases mem_known hw' with ⟨-, hw'⟩ | ⟨hid', w₀, -, -, rfl⟩
          · exact h.fates w' hw'
          · refine iff_of_false (fun hi => hnot (hid' ▸ hi)) ?_
            rw [Write.withFate]
            simp
      | none =>
        refine ⟨by rw [ids_known]; exact h.nodup, fun w' hw' => ?_, fun i hi => ?_,
          fun w' hw' => ?_⟩
        · rcases mem_known hw' with ⟨-, hw'⟩ | ⟨hw', -⟩
          · exact h.sent w' hw'
          · rw [hw', ← hid]
            exact h.sent w hw
        · rcases List.mem_cons.mp hi with rfl | hi
          · rw [← hid]
            exact h.sent w hw
          · exact h.taken i hi
        · rcases mem_known hw' with ⟨hne, hw'⟩ | ⟨hid', w₀, -, -, rfl⟩
          · rw [← h.fates w' hw']
            exact ⟨fun hi => (List.mem_cons.mp hi).resolve_left hne, List.mem_cons_of_mem id⟩
          · refine iff_of_true ?_ rfl
            rw [hid']
            exact List.mem_cons_self
    · exact h

/-- The writes in flight after one of them is heard of. -/
theorem Cell.Known.heard (h : c.Known) (id : Nat) (shown : Version α) :
    Cell.Known { c with shown := shown, inFlight := c.inFlight.filter fun w => w.id ≠ id } := by
  refine ⟨?_, fun w hw => h.sent w (List.mem_filter.mp hw).1, h.taken,
    fun w hw => h.fates w (List.mem_filter.mp hw).1⟩
  exact h.nodup.sublist (List.filter_sublist.map Write.id)

end

/-! ## Writes shown once they are stored -/

/-- The last stored write is what will be shown last, or is shown. -/
structure Cell.Follows (c : Cell α) : Prop where
  known : c.Known
  flying : ∀ w ∈ c.inFlight, c.order.head? = some w.id → w.next = c.stored
  landed : (∀ w ∈ c.inFlight, c.order.head? ≠ some w.id) → c.shown = c.stored

section

variable {c : Cell α}

theorem Cell.follows_load (a : α) : (Cell.load a).Follows :=
  ⟨known_load a, fun _ h => (nomatch h), fun _ => rfl⟩

theorem Cell.Follows.agrees (h : c.Follows) : c.Agrees := by
  intro hnone
  rw [h.landed fun w hw => absurd (hnone ▸ hw) List.not_mem_nil]

theorem Cell.Follows.begin (h : c.Follows) (f : α → Option α) : (c.begin .stored f).Follows := by
  have hknown := h.known.begin .stored f
  unfold Cell.begin at hknown ⊢
  split
  · exact h
  · rename_i a hf
    rw [hf] at hknown
    refine ⟨hknown, fun w hw hhead => ?_, fun hnone => ?_⟩
    · rcases List.mem_append.mp hw with hw | hw
      · exact h.flying w hw hhead
      · rw [List.mem_singleton.mp hw] at hhead
        exact absurd (h.known.taken _ (List.mem_of_mem_head? hhead)) (Nat.lt_irrefl _)
    · exact h.landed fun w hw => hnone w (List.mem_append_left _ hw)

theorem Cell.Follows.finish (h : c.Follows) (id : Nat) (refusal : Option String) :
    (c.finish id refusal).Follows := by
  have hknown := h.known.finish id refusal
  unfold Cell.finish at hknown ⊢
  split
  · exact h
  · rename_i w hfind
    obtain ⟨hw, hid⟩ := Cell.mem_of_find hfind
    rw [hfind] at hknown
    dsimp only at hknown
    split
    · rename_i hpending
      rw [if_pos hpending] at hknown
      cases refusal with
      | some reason =>
        refine ⟨hknown, fun w' hw' hhead => ?_, fun hnone => h.landed fun w' hw' hhead => ?_⟩
        · rcases mem_known hw' with ⟨-, hw'⟩ | ⟨-, w₀, hw₀, -, rfl⟩
          · exact h.flying w' hw' hhead
          · exact h.flying w₀ hw₀ hhead
        · have hids := @ids_known α id (.refused reason) c.inFlight
          have hmem := List.mem_map_of_mem (f := Write.id) hw'
          rw [← hids] at hmem
          obtain ⟨w'', hw'', heq⟩ := List.mem_map.mp hmem
          exact hnone w'' hw'' (heq ▸ hhead)
      | none =>
        refine ⟨hknown, fun w' hw' hhead => ?_, fun hnone => ?_⟩
        · have hid' : id = w'.id := Option.some.inj hhead
          rcases mem_known hw' with ⟨hne, -⟩ | ⟨-, w₀, hw₀, hid₀, rfl⟩
          · exact absurd hid'.symm hne
          · rw [h.known.eq_of_id hw₀ hw (hid₀.trans hid.symm)]
            rfl
        · have hids := @ids_known α id .stored c.inFlight
          have hmem := List.mem_map_of_mem (f := Write.id) hw
          rw [← hids] at hmem
          obtain ⟨w'', hw'', heq⟩ := List.mem_map.mp hmem
          exact absurd (by rw [heq, hid]; rfl) (hnone w'' hw'')
    · exact h

/-- A stored write is shown when it is heard of, and nothing else changes what is shown. -/
theorem Cell.Follows.settle (h : c.Follows) {id : Nat}
    (horder : (∃ w, c.find id = some w ∧ w.fate = .stored) →
      ∀ i, c.order.head? = some i → i = id ∨ (c.find i).isSome = true) :
    (c.settle .stored true id).Follows := by
  unfold Cell.settle
  split
  · exact h
  · rename_i w hfind
    obtain ⟨hw, hid⟩ := Cell.mem_of_find hfind
    have hrest : ∀ w' ∈ c.inFlight.filter fun w => w.id ≠ id, w' ∈ c.inFlight :=
      fun w' hw' => (List.mem_filter.mp hw').1
    dsimp only
    cases hfate : w.fate with
    | pending => exact h
    | refused reason =>
      refine ⟨h.known.heard id c.shown, fun w' hw' => h.flying w' (hrest w' hw'), fun hnone => ?_⟩
      refine h.landed fun w' hw' hhead => ?_
      by_cases heq : w'.id = id
      · -- A refused write is not the last stored one.
        have hmem := (h.known.fates w hw).mp (hid ▸ heq ▸ List.mem_of_mem_head? hhead)
        rw [hfate] at hmem
        cases hmem
      · exact hnone w' (List.mem_filter.mpr ⟨hw', by simpa using heq⟩) hhead
    | stored =>
      refine ⟨h.known.heard id w.next, fun w' hw' => h.flying w' (hrest w' hw'), fun hnone => ?_⟩
      have hmem : id ∈ c.order := hid ▸ (h.known.fates w hw).mpr hfate
      cases hhead : c.order with
      | nil => rw [hhead] at hmem; cases hmem
      | cons i order =>
        have hi : c.order.head? = some i := by rw [hhead]; rfl
        rcases horder ⟨w, hfind, hfate⟩ i hi with rfl | hflying
        · exact h.flying w hw (by rw [hi, hid])
        · obtain ⟨w', hfind'⟩ := Option.isSome_iff_exists.mp hflying
          obtain ⟨hw', hid'⟩ := Cell.mem_of_find hfind'
          by_cases heq : w'.id = id
          · exact h.flying w hw (by rw [hi, hid, ← heq, hid'])
          · exact absurd (hi.trans (by rw [hid']))
              (hnone w' (List.mem_filter.mpr ⟨hw', by simpa using heq⟩))

end

/-! ## Writes shown as they are sent -/

/-- The version at the top of a stack of writes over a first value. -/
def top (base : α) : List (Nat × α) → Version α
  | [] => ⟨base, []⟩
  | (i, a) :: stack => ⟨a, i :: stack.map Prod.fst⟩

theorem writes_top (base : α) (stack : List (Nat × α)) :
    (top base stack).writes = stack.map Prod.fst := by
  cases stack <;> rfl

/-- What is shown is the last of a stack of writes, none of which has been taken back; the store
holds one that lies in the stack, and a write in flight was sent on top of those below it. -/
structure Cell.Chain (c : Cell α) (base : α) (stack : List (Nat × α)) : Prop where
  known : c.Known
  shown : c.shown = top base stack
  sorted : (stack.map Prod.fst).Pairwise (· > ·)
  below : ∀ i ∈ stack.map Prod.fst, i < c.count
  flying : ∀ w ∈ c.inFlight, ∃ newer a older, stack = newer ++ (w.id, a) :: older ∧
    w.next = top base ((w.id, a) :: older) ∧ w.prev = top base older
  open_ : ∀ i ∈ stack.map Prod.fst, i ∈ c.order ∨ ∃ w ∈ c.inFlight, w.id = i
  descending : c.order.Pairwise (· > ·)
  within : ∀ i ∈ c.order, i ∈ stack.map Prod.fst
  stored : ∃ newer older, stack = newer ++ older ∧ c.stored = top base older ∧
    (older.map Prod.fst).head? = c.order.head?

section

variable {c : Cell α} {base : α} {stack : List (Nat × α)}

theorem Cell.chain_load (a : α) : (Cell.load a).Chain a [] :=
  ⟨known_load a, rfl, .nil, fun _ h => (nomatch h), fun _ h => (nomatch h), fun _ h => (nomatch h),
    .nil, fun _ h => (nomatch h), [], [], rfl, rfl, rfl⟩

/-- Equal numbers stand at equal places of the stack. -/
theorem Cell.Chain.split_eq (h : c.Chain base stack) {newer older newer' older' : List (Nat × α)}
    {i : Nat} {a a' : α} (hsplit : stack = newer ++ (i, a) :: older)
    (hsplit' : stack = newer' ++ (i, a') :: older') : newer = newer' ∧ older = older' := by
  have hsorted := h.sorted
  rw [hsplit] at hsorted hsplit'
  clear hsplit
  induction newer generalizing newer' with
  | nil =>
    cases newer' with
    | nil => exact ⟨rfl, (List.cons.inj hsplit').2⟩
    | cons e newer' =>
      obtain ⟨rfl, rfl⟩ := List.cons.inj hsplit'
      simp only [List.nil_append, List.map_cons, List.pairwise_cons] at hsorted
      exact absurd (hsorted.1 i (by simp)) (Nat.lt_irrefl i)
  | cons d newer ih =>
    cases newer' with
    | nil =>
      obtain ⟨rfl, rfl⟩ := List.cons.inj hsplit'
      simp only [List.cons_append, List.map_cons, List.pairwise_cons] at hsorted
      exact absurd (hsorted.1 i (by simp)) (Nat.lt_irrefl i)
    | cons e newer' =>
      obtain ⟨rfl, hrest⟩ := List.cons.inj hsplit'
      simp only [List.cons_append, List.map_cons, List.pairwise_cons] at hsorted
      obtain ⟨rfl, rfl⟩ := ih hrest hsorted.2
      exact ⟨rfl, rfl⟩

/-- Once everything has been heard of, the last write of the stack is the last stored one. -/
theorem Cell.Chain.agrees (h : c.Chain base stack) : c.Agrees := by
  intro hnone
  obtain ⟨newer, older, hstack, hstored, hhead⟩ := h.stored
  have hall : ∀ i ∈ stack.map Prod.fst, i ∈ c.order := by
    intro i hi
    rcases h.open_ i hi with hi | ⟨w, hw, -⟩
    · exact hi
    · exact absurd (hnone ▸ hw) List.not_mem_nil
  suffices hnewer : newer = [] by
    rw [hnewer, List.nil_append] at hstack
    rw [h.shown, hstored, hstack]
  cases newer with
  | nil => rfl
  | cons e newer =>
    -- The write on top has been stored, and none was stored after the one that lies deeper.
    exfalso
    have htop : e.1 ∈ c.order := hall _ (by rw [hstack]; simp)
    cases horder : c.order with
    | nil => rw [horder] at htop; cases htop
    | cons i order =>
      rw [horder, List.head?_cons] at hhead
      have hi : i ∈ older.map Prod.fst := List.mem_of_mem_head? hhead
      have hlt : i < e.1 := by
        have hsorted := h.sorted
        rw [hstack, List.cons_append, List.map_cons, List.pairwise_cons, List.map_append] at hsorted
        exact hsorted.1 i (List.mem_append_right _ hi)
      rw [horder] at htop
      have hdescending := h.descending
      rw [horder, List.pairwise_cons] at hdescending
      rcases List.mem_cons.mp htop with heq | hmem
      · omega
      · have hgt := hdescending.1 e.1 hmem
        omega

theorem Cell.Chain.begin (h : c.Chain base stack) (f : α → Option α) :
    ∃ stack, (c.begin .sent f).Chain base stack := by
  have hknown := h.known.begin .sent f
  unfold Cell.begin at hknown ⊢
  split
  · exact ⟨stack, h⟩
  · rename_i a hf
    rw [hf] at hknown
    have hwrites : c.count :: c.shown.writes = c.count :: stack.map Prod.fst := by
      rw [h.shown, writes_top]
    refine ⟨(c.count, a) :: stack, hknown, ?_, ?_, ?_, ?_, ?_, h.descending, ?_, ?_⟩
    · dsimp only
      rw [hwrites]
      rfl
    · rw [List.map_cons, List.pairwise_cons]
      exact ⟨h.below, h.sorted⟩
    · intro i hi
      rcases List.mem_cons.mp hi with rfl | hi
      · exact Nat.lt_succ_self _
      · exact Nat.lt_succ_of_lt (h.below i hi)
    · intro w hw
      rcases List.mem_append.mp hw with hw | hw
      · obtain ⟨newer, b, older, rfl, hnext, hprev⟩ := h.flying w hw
        exact ⟨(c.count, a) :: newer, b, older, rfl, hnext, hprev⟩
      · obtain rfl := List.mem_singleton.mp hw
        refine ⟨[], a, stack, rfl, ?_, h.shown⟩
        dsimp only
        rw [hwrites]
        rfl
    · intro i hi
      rcases List.mem_cons.mp hi with rfl | hi
      · exact .inr ⟨_, List.mem_append_right _ (List.mem_singleton_self _), rfl⟩
      · rcases h.open_ i hi with hi | ⟨w, hw, hid⟩
        · exact .inl hi
        · exact .inr ⟨w, List.mem_append_left _ hw, hid⟩
    · exact fun i hi => List.mem_cons_of_mem _ (h.within i hi)
    · obtain ⟨newer, older, rfl, hstored, hhead⟩ := h.stored
      exact ⟨(c.count, a) :: newer, older, rfl, hstored, hhead⟩

theorem Cell.Chain.finish (h : c.Chain base stack) {id : Nat} {refusal : Option String}
    (horder : refusal = none → (∃ w, c.find id = some w ∧ w.fate = .pending) →
      ∀ i ∈ c.order, i < id) :
    (c.finish id refusal).Chain base stack := by
  have hknown := h.known.finish id refusal
  unfold Cell.finish at hknown ⊢
  split
  · exact h
  · rename_i w hfind
    obtain ⟨hw, hid⟩ := Cell.mem_of_find hfind
    rw [hfind] at hknown
    dsimp only at hknown
    split
    · rename_i hpending
      rw [if_pos hpending] at hknown
      have hflying : ∀ (fate : Fate), ∀ w' ∈ (c.inFlight.map fun w =>
          if w.id = id then { w with fate := fate } else w), ∃ newer a older,
            stack = newer ++ (w'.id, a) :: older ∧ w'.next = top base ((w'.id, a) :: older) ∧
              w'.prev = top base older := by
        intro fate w' hw'
        rcases mem_known hw' with ⟨-, hw'⟩ | ⟨-, w₀, hw₀, -, rfl⟩
        · exact h.flying w' hw'
        · exact h.flying w₀ hw₀
      have hopen : ∀ (fate : Fate), ∀ i ∈ stack.map Prod.fst, i ∈ c.order ∨
          ∃ w ∈ c.inFlight.map fun w => if w.id = id then { w with fate := fate } else w,
            w.id = i := by
        intro fate i hi
        rcases h.open_ i hi with hi | ⟨w', hw', rfl⟩
        · exact .inl hi
        · have hmem := List.mem_map_of_mem (f := Write.id) hw'
          rw [← @ids_known α id fate] at hmem
          exact .inr (List.mem_map.mp hmem)
      cases refusal with
      | some reason =>
        exact ⟨hknown, h.shown, h.sorted, h.below, hflying _, hopen _, h.descending, h.within,
          h.stored⟩
      | none =>
        obtain ⟨newer, a, older, hstack, hnext, -⟩ := h.flying w hw
        have hlt := horder rfl ⟨w, hfind, hpending⟩
        refine ⟨hknown, h.shown, h.sorted, h.below, hflying _, ?_, ?_, ?_, newer,
          (w.id, a) :: older, hstack, hnext, ?_⟩
        · intro i hi
          rcases hopen .stored i hi with hi | hi
          · exact .inl (List.mem_cons_of_mem id hi)
          · exact .inr hi
        · rw [List.pairwise_cons]
          exact ⟨hlt, h.descending⟩
        · intro i hi
          rcases List.mem_cons.mp hi with rfl | hi
          · rw [hstack, ← hid]
            simp
          · exact h.within i hi
        · rw [List.map_cons, List.head?_cons, List.head?_cons, hid]
    · exact h

/-- A refused write that is still shown lies on top of what was shown before. -/
theorem Cell.Chain.top_of_refused (h : c.Chain base stack) {id : Nat} {w : Write α}
    (hfind : c.find id = some w) (hhead : c.shown.writes.head? = some id) :
    ∃ a older, stack = (id, a) :: older ∧ w.prev = top base older := by
  obtain ⟨hw, hid⟩ := Cell.mem_of_find hfind
  obtain ⟨newer, a, older, hstack, -, hprev⟩ := h.flying w hw
  rw [h.shown, writes_top] at hhead
  cases hcases : stack with
  | nil => rw [hcases] at hhead; cases hhead
  | cons e rest =>
    rw [hcases] at hhead
    have he : e.1 = w.id := (Option.some.inj hhead).trans hid.symm
    have hstack' : stack = [] ++ (w.id, e.2) :: rest := by
      rw [hcases, ← he]
      rfl
    obtain ⟨-, rfl⟩ := h.split_eq hstack hstack'
    refine ⟨e.2, older, ?_, hprev⟩
    rw [← hid, ← he]

theorem Cell.settle_of_refused {id : Nat} {w : Write α} {reason : String}
    (hfind : c.find id = some w) (hfate : w.fate = .refused reason) :
    c.settle .sent true id =
      { c with shown := w.prev, inFlight := c.inFlight.filter fun w => w.id ≠ id } := by
  rw [Cell.settle, hfind]
  simp only [hfate, if_true]

theorem Cell.Chain.not_mem_of_refused (h : c.Chain base stack) {id : Nat} {w : Write α}
    {reason : String} (hfind : c.find id = some w) (hfate : w.fate = .refused reason) :
    id ∉ c.order := by
  obtain ⟨hw, hid⟩ := Cell.mem_of_find hfind
  rw [← hid, h.known.fates w hw, hfate]
  simp

/-- No stored write goes when one is taken back. -/
theorem Cell.Chain.keeps (h : c.Chain base stack) {id : Nat}
    (horder : c.Refuses id → c.shown.writes.head? = some id) : c.Keeps .sent (.settle id) := by
  intro hrefuses i hi _
  have hhead := horder hrefuses
  obtain ⟨w, reason, hfind, hfate⟩ := hrefuses
  obtain ⟨a, older, hstack, hprev⟩ := h.top_of_refused hfind hhead
  rw [settle_of_refused hfind hfate, hprev, writes_top]
  have hmem := h.within i hi
  rw [hstack] at hmem
  exact (List.mem_cons.mp hmem).resolve_left fun heq =>
    h.not_mem_of_refused hfind hfate ((show i = id from heq) ▸ hi)

/-- A refused write is taken back from the top of the stack. -/
theorem Cell.Chain.settle_refused (h : c.Chain base stack) {id : Nat} {w : Write α}
    {reason : String} (hfind : c.find id = some w) (hfate : w.fate = .refused reason)
    (hhead : c.shown.writes.head? = some id) :
    ∃ stack, (c.settle .sent true id).Chain base stack := by
  have hnot := h.not_mem_of_refused hfind hfate
  obtain ⟨a, older, hstack, hprev⟩ := h.top_of_refused hfind hhead
  have hsorted := h.sorted
  have hbelow := h.below
  rw [hstack, List.map_cons] at hsorted hbelow
  rw [List.pairwise_cons] at hsorted
  rw [settle_of_refused hfind hfate]
  refine ⟨older, h.known.heard id w.prev, hprev, hsorted.2,
    fun i hi => hbelow i (List.mem_cons_of_mem _ hi), fun w' hw' => ?_, fun i hi => ?_,
    h.descending, fun i hi => ?_, ?_⟩
  · obtain ⟨hmem, hne⟩ := List.mem_filter.mp hw'
    obtain ⟨newer', a', older', hstack', hnext', hprev'⟩ := h.flying w' hmem
    rw [hstack] at hstack'
    cases newer' with
    | nil =>
      have heq : w'.id = id := (congrArg Prod.fst (List.cons.inj hstack').1).symm
      simp [heq] at hne
    | cons e newer' => exact ⟨newer', a', older', (List.cons.inj hstack').2, hnext', hprev'⟩
  · have hstackmem : i ∈ stack.map Prod.fst := by
      rw [hstack]
      exact List.mem_cons_of_mem _ hi
    have hne : i ≠ id := Nat.ne_of_lt (hsorted.1 i hi)
    rcases h.open_ i hstackmem with hi | ⟨w', hw', rfl⟩
    · exact .inl hi
    · exact .inr ⟨w', List.mem_filter.mpr ⟨hw', by simpa using hne⟩, rfl⟩
  · have hmem := h.within i hi
    rw [hstack] at hmem
    exact (List.mem_cons.mp hmem).resolve_left fun heq => hnot ((show i = id from heq) ▸ hi)
  · obtain ⟨newer', older', hstack', hstored, hhead'⟩ := h.stored
    rw [hstack] at hstack'
    cases newer' with
    | nil =>
      obtain rfl : (id, a) :: older = older' := hstack'
      exact absurd (List.mem_of_mem_head? hhead'.symm) hnot
    | cons e newer' => exact ⟨newer', older', (List.cons.inj hstack').2, hstored, hhead'⟩

theorem Cell.Chain.settle (h : c.Chain base stack) {id : Nat}
    (horder : c.Refuses id → c.shown.writes.head? = some id) :
    ∃ stack, (c.settle .sent true id).Chain base stack := by
  cases hfind : c.find id with
  | none =>
    rw [Cell.settle, hfind]
    exact ⟨stack, h⟩
  | some w =>
    obtain ⟨hw, hid⟩ := Cell.mem_of_find hfind
    cases hfate : w.fate with
    | refused reason => exact h.settle_refused hfind hfate (horder ⟨w, reason, hfind, hfate⟩)
    | pending =>
      rw [Cell.settle, hfind]
      simp only [hfate]
      exact ⟨stack, h⟩
    | stored =>
      rw [Cell.settle, hfind]
      simp only [hfate]
      refine ⟨stack, h.known.heard id c.shown, h.shown, h.sorted, h.below,
        fun w' hw' => h.flying w' (List.mem_filter.mp hw').1, fun i hi => ?_, h.descending,
        h.within, h.stored⟩
      rcases h.open_ i hi with hi | ⟨w', hw', rfl⟩
      · exact .inl hi
      · by_cases heq : w'.id = id
        · rw [h.known.eq_of_id hw' hw (heq.trans hid.symm)]
          exact .inl ((h.known.fates w hw).mpr hfate)
        · exact .inr ⟨w', List.mem_filter.mpr ⟨hw', by simpa using heq⟩, rfl⟩

end

/-! ## Runs -/

/-- What orderly steps keep. -/
def Cell.Orderly : Shows → Cell α → Prop
  | .sent, c => ∃ base stack, c.Chain base stack
  | .stored, c => c.Follows

section

variable {c : Cell α} {shows : Shows}

theorem Cell.orderly_load (shows : Shows) (a : α) : (Cell.load a).Orderly shows := by
  cases shows with
  | sent => exact ⟨a, [], chain_load a⟩
  | stored => exact follows_load a

/-- In a cell that has been kept in order, what is shown is what is stored once nothing is under
way. -/
theorem Cell.Orderly.agrees (h : c.Orderly shows) : c.Agrees := by
  cases shows with
  | sent =>
    obtain ⟨base, stack, h⟩ := h
    exact h.agrees
  | stored => exact Follows.agrees h

theorem Cell.Orderly.keeps (h : c.Orderly shows) {a : Act α} (horder : c.InOrder shows a) :
    c.Keeps shows a := by
  cases a with
  | begin f => trivial
  | finish id refusal => trivial
  | settle id =>
    cases shows with
    | sent =>
      obtain ⟨base, stack, h⟩ := h
      exact h.keeps horder
    | stored =>
      rintro ⟨w, reason, hfind, hfate⟩ i _ hi
      rw [Cell.settle, hfind]
      simpa only [hfate, if_true] using hi

theorem Cell.Orderly.act (h : c.Orderly shows) {a : Act α} (horder : c.InOrder shows a) :
    (c.act shows a).Orderly shows := by
  cases shows with
  | sent =>
    obtain ⟨base, stack, h⟩ := h
    cases a with
    | begin f => exact ⟨base, h.begin f⟩
    | finish id refusal =>
      refine ⟨base, stack, h.finish ?_⟩
      rintro rfl
      exact horder
    | settle id => exact ⟨base, h.settle horder⟩
  | stored =>
    cases a with
    | begin f => exact Follows.begin h f
    | finish id refusal => exact Follows.finish h id refusal
    | settle id => exact Follows.settle h horder

theorem Cell.Orderly.begin (h : c.Orderly shows) (f : α → Option α) :
    (c.begin shows f).Orderly shows :=
  h.act (a := .begin f) (by cases shows <;> trivial)

theorem Cell.Orderly.finish (h : c.Orderly shows) {id : Nat} {refusal : Option String}
    (horder : c.InOrder shows (.finish id refusal)) : (c.finish id refusal).Orderly shows :=
  h.act horder

theorem Cell.Orderly.settle (h : c.Orderly shows) {id : Nat}
    (horder : c.InOrder shows (.settle id)) : (c.settle shows true id).Orderly shows :=
  h.act horder

end

end Writes
