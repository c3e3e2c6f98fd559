import Mathlib.Data.List.Lex
import Mathlib.Data.Prod.Lex
import Mathlib.Data.Sum.Order
import Mathlib.Order.PiLex
import Mathlib.Order.WithBot

/-!
# The sign of a comparison

A comparison of two values gives a negative number, zero or a positive one. Comparisons
that go through keys of a linear order need no other argument to be a preorder.
-/

namespace Go

/-- `cmp.Compare`. -/
def threeWay {α : Type*} [LinearOrder α] (a b : α) : Int :=
  if a < b then -1 else if b < a then 1 else 0

section

variable {α : Type*} [LinearOrder α] {a b : α}

@[simp] theorem threeWay_self (a : α) : threeWay a a = 0 := by
  simp [threeWay]

theorem threeWay_of_lt (h : a < b) : threeWay a b = -1 := if_pos h

theorem threeWay_of_gt (h : b < a) : threeWay a b = 1 := by
  rw [threeWay, if_neg h.not_gt, if_pos h]

theorem threeWay_swap (a b : α) : threeWay b a = -threeWay a b := by
  rcases lt_trichotomy a b with h | rfl | h
  · rw [threeWay_of_gt h, threeWay_of_lt h]
    rfl
  · rw [threeWay_self]
    rfl
  · rw [threeWay_of_lt h, threeWay_of_gt h]

theorem threeWay_eq_zero_iff : threeWay a b = 0 ↔ a = b := by
  rcases lt_trichotomy a b with h | rfl | h
  · simp [threeWay_of_lt h, h.ne]
  · simp
  · simp [threeWay_of_gt h, h.ne']

theorem threeWay_nonpos_iff : threeWay a b ≤ 0 ↔ a ≤ b := by
  rcases lt_trichotomy a b with h | rfl | h
  · simp [threeWay_of_lt h, h.le]
  · simp
  · simp [threeWay_of_gt h, h]

theorem threeWay_pos_iff : 0 < threeWay a b ↔ b < a := by
  rw [← not_le, threeWay_nonpos_iff, not_le]

theorem threeWay_nonneg_iff : 0 ≤ threeWay a b ↔ b ≤ a := by
  rw [← Int.neg_nonpos_iff, ← threeWay_swap, threeWay_nonpos_iff]

end

/-! ## Keys -/

section

variable {α β : Type*} [LinearOrder α] [LinearOrder β]

/-- A comparison by a second value where the first ones are the same. -/
theorem threeWay_toLex (a b : α) (x y : β) :
    threeWay (toLex (a, x)) (toLex (b, y)) =
      if threeWay a b ≠ 0 then threeWay a b else threeWay x y := by
  rcases lt_trichotomy a b with h | rfl | h
  · rw [threeWay_of_lt (Prod.Lex.toLex_lt_toLex.2 (.inl h)), threeWay_of_lt h]
    rfl
  · have hlt : ∀ x y : β, toLex (a, x) < toLex (a, y) ↔ x < y := by
      intro x y
      simp [Prod.Lex.toLex_lt_toLex]
    simp [threeWay, hlt]
  · rw [threeWay_of_gt (Prod.Lex.toLex_lt_toLex.2 (.inl h)), threeWay_of_gt h]
    rfl

theorem threeWay_cons (a b : α) (as bs : List α) :
    threeWay (a :: as) (b :: bs) = if threeWay a b ≠ 0 then threeWay a b else threeWay as bs := by
  rcases lt_trichotomy a b with h | rfl | h
  · rw [threeWay_of_lt (List.cons_lt_cons_iff.2 (.inl h)), threeWay_of_lt h]
    rfl
  · rw [threeWay_self, if_neg (not_not.2 rfl)]
    rcases lt_trichotomy as bs with h | rfl | h
    · rw [threeWay_of_lt h, threeWay_of_lt (List.cons_lt_cons_iff.2 (.inr ⟨rfl, h⟩))]
    · rw [threeWay_self, threeWay_self]
    · rw [threeWay_of_gt h, threeWay_of_gt (List.cons_lt_cons_iff.2 (.inr ⟨rfl, h⟩))]
  · rw [threeWay_of_gt (List.cons_lt_cons_iff.2 (.inl h)), threeWay_of_gt h]
    rfl

@[simp] theorem threeWay_nil_cons (b : α) (bs : List α) : threeWay [] (b :: bs) = -1 :=
  threeWay_of_lt (List.nil_lt_cons b bs)

@[simp] theorem threeWay_cons_nil (a : α) (as : List α) : threeWay (a :: as) [] = 1 :=
  threeWay_of_gt (List.nil_lt_cons a as)

@[simp] theorem threeWay_top_coe (b : α) : threeWay ⊤ (b : WithTop α) = 1 :=
  threeWay_of_gt (WithTop.coe_lt_top b)

@[simp] theorem threeWay_coe_top (a : α) : threeWay (a : WithTop α) ⊤ = -1 :=
  threeWay_of_lt (WithTop.coe_lt_top a)

@[simp] theorem threeWay_coe (a b : α) : threeWay (a : WithTop α) b = threeWay a b := by
  simp [threeWay]

theorem threeWay_inlₗ (a b : α) :
    threeWay (Sum.inlₗ a : α ⊕ₗ β) (Sum.inlₗ b) = threeWay a b := by
  simp [threeWay]

theorem threeWay_inrₗ (a b : β) :
    threeWay (Sum.inrₗ a : α ⊕ₗ β) (Sum.inrₗ b) = threeWay a b := by
  simp [threeWay]

theorem threeWay_inlₗ_inrₗ (a : α) (b : β) :
    threeWay (Sum.inlₗ a : α ⊕ₗ β) (Sum.inrₗ b) = -1 :=
  threeWay_of_lt (Sum.Lex.inl_lt_inr a b)

theorem threeWay_inrₗ_inlₗ (a : β) (b : α) :
    threeWay (Sum.inrₗ a : α ⊕ₗ β) (Sum.inlₗ b) = 1 :=
  threeWay_of_gt (Sum.Lex.inl_lt_inr b a)

/-- A sequence is below another if its first value is, or the rest at the same one. -/
theorem lex_lt_iff (f g : ℕ → α) : toLex f < toLex g ↔
    f 0 < g 0 ∨ f 0 = g 0 ∧ toLex (fun n => f (n + 1)) < toLex (fun n => g (n + 1)) := by
  constructor
  · rintro ⟨i, hsame, hlt⟩
    cases i with
    | zero => exact .inl hlt
    | succ i =>
      exact .inr ⟨hsame 0 (Nat.succ_pos i), i, fun j hj => hsame (j + 1) (Nat.succ_lt_succ hj), hlt⟩
  · rintro (hlt | ⟨hzero, i, hsame, hlt⟩)
    · exact ⟨0, fun j hj => absurd hj (Nat.not_lt_zero j), hlt⟩
    · refine ⟨i + 1, fun j hj => ?_, hlt⟩
      cases j with
      | zero => exact hzero
      | succ j => exact hsame j (Nat.lt_of_succ_lt_succ hj)

theorem threeWay_congr {a b : α} {x y : β} (hlt : a < b ↔ x < y)
    (hgt : b < a ↔ y < x) : threeWay a b = threeWay x y := by
  simp only [threeWay, hlt, hgt]

/-- Sequences are compared by their first values, and at the same ones by the rest. -/
theorem threeWay_lex (f g : ℕ → α) : threeWay (toLex f) (toLex g) =
    if threeWay (f 0) (g 0) ≠ 0 then threeWay (f 0) (g 0)
    else threeWay (toLex fun n => f (n + 1)) (toLex fun n => g (n + 1)) := by
  rcases lt_trichotomy (f 0) (g 0) with h | h | h
  · rw [threeWay_of_lt ((lex_lt_iff f g).2 (.inl h)), threeWay_of_lt h]
    rfl
  · rw [h, threeWay_self, if_neg (not_not.2 rfl)]
    have hfg := lex_lt_iff f g
    have hgf := lex_lt_iff g f
    simp only [h, lt_irrefl, false_or, true_and] at hfg hgf
    exact threeWay_congr hfg hgf
  · rw [threeWay_of_gt ((lex_lt_iff g f).2 (.inl h)), threeWay_of_gt h]
    rfl

end

/-- A comparison that orders all values, and only the same one as equal. -/
structure TotalComparison {α : Type*} (cmp : α → α → Int) : Prop where
  refl : ∀ a, cmp a a = 0
  swap : ∀ a b, cmp b a = -cmp a b
  eq_of_eq_zero : ∀ a b, cmp a b = 0 → a = b
  trans : ∀ a b c, cmp a b ≤ 0 → cmp b c ≤ 0 → cmp a c ≤ 0

/-- Comparing keys that tell the values apart orders the values. -/
theorem TotalComparison.of_key {α κ : Type*} [LinearOrder κ] {cmp : α → α → Int} (key : α → κ)
    (hinj : Function.Injective key) (hkey : ∀ a b, cmp a b = threeWay (key a) (key b)) :
    TotalComparison cmp where
  refl a := by rw [hkey, threeWay_self]
  swap a b := by rw [hkey, hkey, threeWay_swap]
  eq_of_eq_zero a b h := by
    rw [hkey, threeWay_eq_zero_iff] at h
    exact hinj h
  trans a b c hab hbc := by
    rw [hkey, threeWay_nonpos_iff] at hab hbc ⊢
    exact hab.trans hbc

end Go
