import Mathlib.Algebra.GroupWithZero.Nat
import Mathlib.Data.List.Chain
import Mathlib.Data.List.Perm.Subperm
import Mathlib.Logic.Relation

/-!
# Walks without a cycle

In a relation without cycles a walk repeats no element, so within a finite set it is
no longer than the set. The weight of an element counts the visits a traversal can
make that goes on, at every visit, to all elements of one group of successors.
-/

namespace Acyclic

open Relation

variable {α : Type}

/-- No element is reached from itself. -/
def Holds (R : α → α → Prop) : Prop := ∀ a, ¬ TransGen R a a

section

variable {R : α → α → Prop}

theorem Holds.mono {S : α → α → Prop} (h : Holds S) (hsub : ∀ a b, R a b → S a b) : Holds R :=
  fun a ha => h a (TransGen.mono hsub a a ha)

/-- A rank that goes up along the relation excludes cycles. -/
theorem holds_of_rank (rank : α → Nat) (h : ∀ a b, R a b → rank a < rank b) : Holds R := by
  have hreach : ∀ a b, TransGen R a b → rank a < rank b := by
    intro a b hab
    induction hab with
    | single hstep => exact h _ _ hstep
    | tail _ hstep ih => exact ih.trans (h _ _ hstep)
  exact fun a ha => Nat.lt_irrefl _ (hreach a a ha)

theorem Holds.swap (h : Holds R) : Holds (Function.swap R) :=
  fun a ha => h a (transGen_swap.1 ha)

/-- A walk repeats no element. -/
theorem Holds.nodup (h : Holds R) {l : List α} (hl : l.IsChain R) : l.Nodup := by
  have hpair : l.Pairwise (TransGen R) :=
    (hl.imp fun _ _ hab => TransGen.single hab).pairwise
  refine hpair.imp ?_
  rintro a b hab rfl
  exact h a hab

/-- A walk within a finite set is no longer than the set. -/
theorem Holds.length_le (h : Holds R) {l s : List α} (hl : l.IsChain R) (hsub : l ⊆ s) :
    l.length ≤ s.length :=
  (List.subperm_of_subset (h.nodup hl) hsub).length_le

end

/-! ## Weights -/

section

variable (groups : α → List (List α))

/-- `b` is in some group of successors of `a`. -/
def Leads (a b : α) : Prop := ∃ group ∈ groups a, b ∈ group

/-- The most visits from `a` on within `n` steps, one group being chosen at each visit. -/
def weight : Nat → α → Nat
  | 0, _ => 1
  | n + 1, a => 1 + ((groups a).map fun group => (group.map (weight n)).sum).foldr max 0

variable {groups}

theorem weight_pos (n : Nat) (a : α) : 0 < weight groups n a := by
  cases n with
  | zero => exact Nat.one_pos
  | succ n => exact Nat.add_pos_left Nat.one_pos _

private theorem le_foldr_max {l : List Nat} {x : Nat} (h : x ∈ l) : x ≤ l.foldr max 0 := by
  induction l with
  | nil => cases h
  | cons y l ih =>
    rw [List.foldr_cons]
    rcases List.mem_cons.1 h with rfl | h
    · exact le_max_left _ _
    · exact (ih h).trans (le_max_right _ _)

private theorem foldr_max_eq_zero {l : List Nat} (h : ∀ x ∈ l, x = 0) : l.foldr max 0 = 0 := by
  induction l with
  | nil => rfl
  | cons x l ih =>
    rw [List.foldr_cons, h x List.mem_cons_self, ih fun y hy => h y (List.mem_cons_of_mem _ hy)]
    rfl

/-- A visit and what follows in one group weigh no more than the element. -/
theorem add_sum_le_weight {a : α} {group : List α} (h : group ∈ groups a) (n : Nat) :
    1 + (group.map (weight groups n)).sum ≤ weight groups (n + 1) a := by
  have hmem : (group.map (weight groups n)).sum ∈
      (groups a).map fun group => (group.map (weight groups n)).sum := List.mem_map_of_mem h
  rw [weight]
  exact Nat.add_le_add_left (le_foldr_max hmem) 1

/-- Where one more step makes a difference, a walk of that length begins. -/
private theorem exists_walk {n : Nat} {a : α}
    (h : weight groups (n + 1) a ≠ weight groups n a) :
    ∃ l, l.length = n + 1 ∧ (a :: l).IsChain (Leads groups) := by
  induction n generalizing a with
  | zero =>
    by_contra hnone
    refine h ?_
    have hempty : ∀ group ∈ groups a, group = [] := by
      intro group hgroup
      refine List.eq_nil_iff_forall_not_mem.2 fun b hb => hnone ⟨[b], rfl, ?_⟩
      exact .cons_cons ⟨group, hgroup, hb⟩ (.singleton b)
    have hzero : ∀ x ∈ (groups a).map fun group => (group.map (weight groups 0)).sum, x = 0 := by
      intro x hx
      obtain ⟨group, hgroup, rfl⟩ := List.mem_map.1 hx
      rw [hempty group hgroup]
      rfl
    rw [weight.eq_2, foldr_max_eq_zero hzero]
    rfl
  | succ n ih =>
    by_contra hnone
    refine h ?_
    have hsame : ∀ group ∈ groups a,
        (group.map (weight groups (n + 1))).sum = (group.map (weight groups n)).sum := by
      intro group hgroup
      refine congrArg List.sum (List.map_congr_left fun b hb => ?_)
      by_contra hne
      obtain ⟨l, hlen, hwalk⟩ := ih hne
      exact hnone ⟨b :: l, congrArg (· + 1) hlen, .cons_cons ⟨group, hgroup, hb⟩ hwalk⟩
    rw [weight.eq_2, weight.eq_2, List.map_congr_left hsame]

/-- A walk from inside a set that the relation does not leave stays inside. -/
private theorem walk_subset {s : List α} (hs : ∀ a ∈ s, ∀ b, Leads groups a b → b ∈ s) {a : α}
    {l : List α} (ha : a ∈ s) (hl : (a :: l).IsChain (Leads groups)) : a :: l ⊆ s := by
  induction l generalizing a with
  | nil => exact List.cons_subset.2 ⟨ha, List.nil_subset _⟩
  | cons b l ih =>
    obtain ⟨hab, hrest⟩ := List.isChain_cons_cons.1 hl
    exact List.cons_subset.2 ⟨ha, ih (hs a ha b hab) hrest⟩

/-- Without cycles, as many steps as the set has elements count everything. -/
theorem weight_succ (h : Holds (Leads groups)) {s : List α}
    (hs : ∀ a ∈ s, ∀ b, Leads groups a b → b ∈ s) {a : α} (ha : a ∈ s) :
    weight groups (s.length + 1) a = weight groups s.length a := by
  by_contra hne
  obtain ⟨l, hlen, hwalk⟩ := exists_walk hne
  have hle := h.length_le hwalk (walk_subset hs ha hwalk)
  rw [List.length_cons, hlen] at hle
  omega

end

end Acyclic
