import Mathlib

/-!
# Polynomials in coefficient lists and division in a shift register

Codewords of a type `α` stand for elements of a commutative ring through `e`. A list of them is
read as a polynomial, highest power first. A loop that adds to single positions of the list adds
the monomials of these positions, and a register as long as a monic divisor's degree, shifted by
one codeword at a time, holds the remainder of what was shifted in.
-/

namespace Konnekt.Codes

open Polynomial

variable {α R : Type*} [CommRing R] {e : α → R}

/-- The polynomial whose coefficients a list names, highest power first. -/
noncomputable def horner (e : α → R) : List α → R[X]
  | [] => 0
  | c :: cs => C (e c) * X ^ cs.length + horner e cs

@[simp] theorem horner_nil (e : α → R) : horner e [] = 0 := rfl

theorem horner_cons (e : α → R) (c : α) (cs : List α) :
    horner e (c :: cs) = C (e c) * X ^ cs.length + horner e cs := rfl

theorem horner_append (e : α → R) (xs ys : List α) :
    horner e (xs ++ ys) = horner e xs * X ^ ys.length + horner e ys := by
  induction xs with
  | nil => simp
  | cons x xs ih =>
    rw [List.cons_append, horner_cons, horner_cons, ih, List.length_append, pow_add]
    ring

/-- One more coefficient moves the others up one power. -/
theorem horner_concat (e : α → R) (cs : List α) (c : α) :
    horner e (cs ++ [c]) = horner e cs * X + C (e c) := by
  rw [horner_append, horner_cons]
  simp

/-- A coefficient list names a polynomial of smaller degree than it is long. -/
theorem degree_horner_lt (e : α → R) (cs : List α) : (horner e cs).degree < cs.length := by
  induction cs with
  | nil => simp
  | cons c cs ih =>
    refine lt_of_le_of_lt (degree_add_le _ _) (max_lt ?_ (ih.trans ?_))
    · refine lt_of_le_of_lt (degree_C_mul_X_pow_le _ _) ?_
      exact_mod_cast Nat.lt_succ_self cs.length
    · exact_mod_cast Nat.lt_succ_self cs.length

theorem horner_replicate {zero : α} (hzero : e zero = 0) (n : Nat) :
    horner e (List.replicate n zero) = 0 := by
  induction n with
  | zero => rfl
  | succ n ih => rw [List.replicate_succ, horner_cons, ih, hzero]; simp

/-- Position `i` of a list holds the coefficient of the power that many places from its end. -/
theorem horner_eq_sum (e : α → R) (cs : List α) (d : α) :
    horner e cs =
      ∑ i ∈ Finset.range cs.length, C (e (cs.getD i d)) * X ^ (cs.length - 1 - i) := by
  induction cs with
  | nil => rfl
  | cons c cs ih =>
    rw [horner_cons, ih, List.length_cons, Finset.sum_range_succ', add_comm]
    refine congrArg₂ (· + ·) (Finset.sum_congr rfl fun i hi => ?_) ?_
    · have : cs.length + 1 - 1 - (i + 1) = cs.length - 1 - i := by omega
      rw [this, List.getD_cons_succ]
    · rw [List.getD_cons_zero, Nat.add_sub_cancel, Nat.sub_zero]

/-- Adding to one position adds the monomial of that position. -/
theorem horner_modify {f : α → α} {v : R} (hf : ∀ c, e (f c) = e c + v) (cs : List α) {i : Nat}
    (hi : i < cs.length) :
    horner e (cs.modify i f) = horner e cs + C v * X ^ (cs.length - 1 - i) := by
  induction cs generalizing i with
  | nil => exact absurd hi (Nat.not_lt_zero i)
  | cons c cs ih =>
    cases i with
    | zero =>
      rw [List.modify_zero_cons, horner_cons, horner_cons, hf, C_add]
      simp only [List.length_cons, Nat.add_sub_cancel, Nat.sub_zero]
      ring
    | succ i =>
      have hi : i < cs.length := Nat.lt_of_succ_lt_succ hi
      have : (c :: cs).length - 1 - (i + 1) = cs.length - 1 - i := by
        rw [List.length_cons]; omega
      rw [List.modify_succ_cons, horner_cons, horner_cons, ih hi, List.length_modify, this]
      ring

/-- A monic polynomial of the degree its list can have has one for its first coefficient. -/
theorem horner_of_monic {c : α} {cs : List α} (hmonic : (horner e (c :: cs)).Monic)
    (hdegree : (horner e (c :: cs)).natDegree = cs.length) :
    horner e (c :: cs) = X ^ cs.length + horner e cs := by
  have hlead : e c = 1 := by
    have h := hmonic.coeff_natDegree
    rwa [hdegree, horner_cons, coeff_add, coeff_C_mul_X_pow, if_pos rfl,
      coeff_eq_zero_of_degree_lt (degree_horner_lt e cs), add_zero] at h
  rw [horner_cons, hlead, C_1, one_mul]

/-- A loop over positions adds what each of its rounds adds. -/
theorem horner_foldl {step : List α → Nat → List α} {gain : Nat → R[X]} {n : Nat}
    (P : List α → Prop) (m : Nat)
    (hstep : ∀ cs, P cs → cs.length = n → ∀ i < m, P (step cs i) ∧ (step cs i).length = n ∧
      horner e (step cs i) = horner e cs + gain i) {cs : List α} (hP : P cs)
    (hn : cs.length = n) :
    P ((List.range m).foldl step cs) ∧ ((List.range m).foldl step cs).length = n ∧
      horner e ((List.range m).foldl step cs) =
        horner e cs + ∑ i ∈ Finset.range m, gain i := by
  induction m with
  | zero => exact ⟨hP, hn, by simp⟩
  | succ m ih =>
    obtain ⟨hP', hn', hm⟩ := ih fun cs hP hn i hi => hstep cs hP hn i (Nat.lt_succ_of_lt hi)
    obtain ⟨hP'', hn'', hlast⟩ := hstep _ hP' hn' m (Nat.lt_succ_self m)
    rw [List.range_succ, List.foldl_append]
    refine ⟨hP'', hn'', ?_⟩
    rw [List.foldl_cons, List.foldl_nil, hlast, hm, Finset.sum_range_succ, add_assoc]

/-- One codeword shifted in: the register's first codeword and the new one leave it together, as a
multiple of the divisor's other coefficients. -/
theorem dvd_of_shift {gen taps p : R[X]} (b : R) (c : α) (cs : List α)
    (hgen : gen = X ^ (cs.length + 1) + taps)
    (h : gen ∣ p * X ^ (cs.length + 1) - horner e (c :: cs)) :
    gen ∣ (p * X + C b) * X ^ (cs.length + 1) -
      (horner e cs * X - C (b + e c) * taps) := by
  have hsplit : (p * X + C b) * X ^ (cs.length + 1) - (horner e cs * X - C (b + e c) * taps) =
      X * (p * X ^ (cs.length + 1) - horner e (c :: cs)) + C (b + e c) * gen := by
    rw [hgen, horner_cons, C_add]
    ring
  rw [hsplit]
  exact dvd_add (Dvd.dvd.mul_left h X) (dvd_mul_left gen _)

/-- A register whose every shift keeps the remainder holds the remainder of all it was given. -/
theorem dvd_of_foldl {gen : R[X]} {d : Nat} {shift : List α → α → List α} (P : List α → Prop)
    (data : List α)
    (hshift : ∀ rem p, P rem → gen ∣ p * X ^ d - horner e rem → ∀ c ∈ data,
      P (shift rem c) ∧ gen ∣ (p * X + C (e c)) * X ^ d - horner e (shift rem c))
    {rem : List α} {p : R[X]} (hP : P rem) (h : gen ∣ p * X ^ d - horner e rem) :
    P (data.foldl shift rem) ∧
      gen ∣ (p * X ^ data.length + horner e data) * X ^ d - horner e (data.foldl shift rem) := by
  induction data generalizing rem p with
  | nil => exact ⟨hP, by simpa using h⟩
  | cons c data ih =>
    obtain ⟨hP', h'⟩ := hshift rem p hP h c List.mem_cons_self
    obtain ⟨hP'', h''⟩ := ih
      (fun rem p hP h c hc => hshift rem p hP h c (List.mem_cons_of_mem _ hc)) hP' h'
    refine ⟨hP'', ?_⟩
    have hmoved : p * X ^ (c :: data).length + horner e (c :: data) =
        (p * X + C (e c)) * X ^ data.length + horner e data := by
      rw [List.length_cons, horner_cons, pow_succ]
      ring
    rw [hmoved]
    exact h''

end Konnekt.Codes
