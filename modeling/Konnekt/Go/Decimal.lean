import Konnekt.Go.Text
import Mathlib.Data.Nat.Digits.Lemmas

/-!
# Whole numbers in decimal

The `%g` layout of a whole number below a million has no exponent and is the
number's own decimal text: fewer digits than it has read back as another whole
number, and whole numbers of that size are exact.
-/

namespace Go

/-! ## Digits as characters -/

private theorem digitChar_eq {d : Nat} (h : d < 10) : Nat.digitChar d = digitChar d := by
  interval_cases d <;> rfl

/-- The decimal text of a positive number is its digits, the highest first. -/
theorem toDigits_eq_digits {m : Nat} (hm : 0 < m) :
    Nat.toDigits 10 m = (Nat.digits 10 m).reverse.map digitChar := by
  induction m using Nat.strong_induction_on with
  | _ m ih =>
    by_cases hlt : m < 10
    · rw [Nat.toDigits_of_lt_base hlt, Nat.digits_of_lt 10 m (by omega) hlt, digitChar_eq hlt]
      rfl
    · rw [Nat.toDigits_of_base_le (by decide) (by omega), ih (m / 10) (by omega) (by omega),
        Nat.digits_def' (by decide) hm, digitChar_eq (Nat.mod_lt m (by decide))]
      simp

/-! ## Rounding -/

theorem roundEven_natCast (k : Nat) : roundEven (k : ℚ) = k := by
  simp [roundEven, Nat.mod_one]

/-- Rounding is no lower than the whole numbers below. -/
theorem le_roundEven {k : Nat} {q : ℚ} (h : (k : ℚ) ≤ q) : k ≤ roundEven q := by
  have hq : 0 ≤ q := le_trans (Nat.cast_nonneg k) h
  have hfloor : k ≤ q.num.natAbs / q.den := by
    rw [Nat.le_div_iff_mul_le q.den_pos]
    have hnum : (q.num.natAbs : ℚ) = q.num := by
      rw [Nat.cast_natAbs, abs_of_nonneg (Rat.num_nonneg.2 hq)]
    have hmul : (k : ℚ) * q.den ≤ q.num := by
      rw [← Rat.mul_den_eq_num]
      exact mul_le_mul_of_nonneg_right h (Nat.cast_nonneg _)
    rw [← hnum] at hmul
    exact_mod_cast hmul
  unfold roundEven
  dsimp only
  split_ifs <;> omega

/-- Rounding is no higher than the whole numbers above. -/
theorem roundEven_le {k : Nat} {q : ℚ} (hq : 0 ≤ q) (h : q ≤ k) : roundEven q ≤ k := by
  have hnum : (q.num.natAbs : ℚ) = q.num := by
    rw [Nat.cast_natAbs, abs_of_nonneg (Rat.num_nonneg.2 hq)]
  have hmul : (q.num : ℚ) ≤ k * q.den := by
    rw [← Rat.mul_den_eq_num]
    exact mul_le_mul_of_nonneg_right h (Nat.cast_nonneg _)
  rw [← hnum] at hmul
  have hle : q.num.natAbs ≤ k * q.den := by exact_mod_cast hmul
  have hdiv := Nat.div_add_mod q.num.natAbs q.den
  have hpos := q.den_pos
  have hfloor : q.num.natAbs / q.den ≤ k := by
    rw [← Nat.mul_div_cancel k hpos]
    exact Nat.div_le_div_right hle
  rcases Nat.lt_or_eq_of_le hfloor with hlt | heq
  · unfold roundEven
    dsimp only
    split_ifs <;> omega
  · -- the quotient is `k` already, so nothing is left to round up
    have hzero : q.num.natAbs % q.den = 0 := by
      rw [heq, Nat.mul_comm] at hdiv
      omega
    unfold roundEven
    rw [hzero, heq]
    dsimp only
    split_ifs <;> omega

/-- Whole numbers below 2⁵³ are exact. -/
theorem nearestFloat_natCast {m : Nat} (hm : 0 < m) (hlt : m < 2 ^ 53) :
    nearestFloat (m : ℚ) = m := by
  have hlog : Nat.log2 m ≤ 52 := by
    have h := (Nat.log2_lt (by omega : m ≠ 0)).2 hlt
    omega
  have hexp : binaryExponent (m : ℚ) = Nat.log2 m := by
    have hpow : (2 : ℚ) ^ Nat.log2 m ≤ m := by
      exact_mod_cast Nat.log2_self_le (by omega : m ≠ 0)
    have hone : Nat.log2 1 = 0 := by decide
    simp [binaryExponent, hone, hpow]
  have hscale : max ((Nat.log2 m : Int) - 52) (-1074) = -((52 - Nat.log2 m : Nat) : Int) := by
    omega
  unfold nearestFloat
  rw [hexp, hscale]
  dsimp only
  rw [zpow_neg, zpow_natCast, div_inv_eq_mul]
  have hcast : (m : ℚ) * 2 ^ (52 - Nat.log2 m) = ((m * 2 ^ (52 - Nat.log2 m) : Nat) : ℚ) := by
    push_cast
    rfl
  rw [hcast, roundEven_natCast, ← hcast, mul_assoc, mul_inv_cancel₀ (by positivity), mul_one]

/-! ## Significant digits -/

section

variable {m : Nat}

private theorem decimalPoint_natCast (hm : 0 < m) :
    decimalPoint (m : ℚ) = (Nat.digits 10 m).length := by
  have hlen : 0 < (Nat.digits 10 m).length :=
    List.length_pos_iff.2 (Nat.digits_ne_nil_iff_ne_zero.2 (by omega))
  have hlow : 10 ^ ((Nat.digits 10 m).length - 1) ≤ m :=
    (Nat.lt_digits_length_iff (by decide) m).1 (by omega)
  have hexp : ((Nat.digits 10 m).length : Int) - 1 =
      (((Nat.digits 10 m).length - 1 : Nat) : Int) := by omega
  have hpow : (10 : ℚ) ^ (((Nat.digits 10 m).length : Int) - 1) ≤ m := by
    rw [hexp, zpow_natCast]
    exact_mod_cast hlow
  simp [decimalPoint, hpow]

/-- The scale and the bounds of the first significant digits of a whole number. -/
private theorem significant_natCast (hm : 0 < m) {n : Nat} (hn : 1 ≤ n) :
    (significant (m : ℚ) n).2 = (Nat.digits 10 m).length - n ∧
      10 ^ (n - 1) ≤ (significant (m : ℚ) n).1 ∧ (significant (m : ℚ) n).1 ≤ 10 ^ n := by
  have hlen : 0 < (Nat.digits 10 m).length :=
    List.length_pos_iff.2 (Nat.digits_ne_nil_iff_ne_zero.2 (by omega))
  have hlow : 10 ^ ((Nat.digits 10 m).length - 1) ≤ m :=
    (Nat.lt_digits_length_iff (by decide) m).1 (by omega)
  have hhigh : m < 10 ^ (Nat.digits 10 m).length :=
    (Nat.digits_length_le_iff (by decide) m).1 (Nat.le_refl _)
  unfold significant
  rw [decimalPoint_natCast hm]
  generalize (Nat.digits 10 m).length = d at hlen hlow hhigh
  have hscale : (0 : ℚ) < 10 ^ ((d : Int) - n) := zpow_pos (by norm_num) _
  refine ⟨rfl, le_roundEven ?_, roundEven_le (div_nonneg (Nat.cast_nonneg m) hscale.le) ?_⟩
  · rw [le_div_iff₀ hscale, Nat.cast_pow, Nat.cast_ofNat, ← zpow_natCast, ← zpow_add₀ (by norm_num)]
    have hexp : ((n - 1 : Nat) : Int) + ((d : Int) - n) = ((d - 1 : Nat) : Int) := by omega
    rw [hexp, zpow_natCast]
    exact_mod_cast hlow
  · rw [div_le_iff₀ hscale, Nat.cast_pow, Nat.cast_ofNat, ← zpow_natCast,
      ← zpow_add₀ (by norm_num)]
    have hexp : (n : Int) + ((d : Int) - n) = ((d : Nat) : Int) := by omega
    rw [hexp, zpow_natCast]
    exact_mod_cast hhigh.le

/-- The number of digits that are printed, and the two facts it was chosen by. -/
private theorem exists_shortest (hm : 0 < m) : ∃ n, 1 ≤ n ∧
    shortestDecimal (m : ℚ) =
      Decimal.ofNat (significant (m : ℚ) n).1 (significant (m : ℚ) n).2 ∧
    ((Nat.digits 10 m).length ≤ 17 → n ≤ (Nat.digits 10 m).length ∧
      nearestFloat ((significant (m : ℚ) n).1 * (10 : ℚ) ^ (significant (m : ℚ) n).2) =
        nearestFloat (m : ℚ)) := by
  unfold shortestDecimal
  dsimp only
  generalize hfind : (List.range' 1 17).find? (fun n => decide (nearestFloat
    ((significant (m : ℚ) n).1 * (10 : ℚ) ^ (significant (m : ℚ) n).2) =
      nearestFloat (m : ℚ))) = found
  have hlen : 0 < (Nat.digits 10 m).length :=
    List.length_pos_iff.2 (Nat.digits_ne_nil_iff_ne_zero.2 (by omega))
  -- all digits read back as the number itself
  have hfull : nearestFloat ((significant (m : ℚ) (Nat.digits 10 m).length).1 *
      (10 : ℚ) ^ (significant (m : ℚ) (Nat.digits 10 m).length).2) = nearestFloat (m : ℚ) := by
    have hsig : significant (m : ℚ) (Nat.digits 10 m).length = (m, 0) := by
      unfold significant
      rw [decimalPoint_natCast hm]
      simp [roundEven_natCast]
    rw [hsig]
    simp
  cases found with
  | none =>
    refine ⟨17, by decide, rfl, fun hshort => ?_⟩
    have hnot := List.find?_eq_none.1 hfind (Nat.digits 10 m).length (by
      rw [List.mem_range'_1]
      omega)
    exact absurd (decide_eq_true hfull) hnot
  | some n =>
    obtain ⟨hreads, hmem, hbefore⟩ := List.find?_range'_eq_some.1 hfind
    refine ⟨n, (List.mem_range'_1.1 hmem).1, rfl, fun hshort => ⟨?_, of_decide_eq_true hreads⟩⟩
    by_contra hlong
    have hnot := hbefore (Nat.digits 10 m).length hlen (by omega)
    rw [decide_eq_true hfull] at hnot
    cases hnot

/-- The point stands no earlier than behind the number's last digit. -/
private theorem length_le_point (hm : 0 < m) :
    ((Nat.digits 10 m).length : Int) ≤ (shortestDecimal (m : ℚ)).point := by
  obtain ⟨n, hn, hshortest, -⟩ := exists_shortest hm
  obtain ⟨hscale, hlow, -⟩ := significant_natCast hm hn
  have hlen := (Nat.lt_digits_length_iff (by decide : 1 < 10) (significant (m : ℚ) n).1).2 hlow
  rw [hshortest]
  simp only [Decimal.ofNat, List.length_reverse, hscale]
  omega

/-- The digits of a number that ends in zeros. -/
private theorem layoutF_ofNat {c : Nat} (hc : 0 < c) (z : Nat) :
    layoutF (Decimal.ofNat c z) = (Nat.digits 10 (10 ^ z * c)).reverse.map digitChar := by
  have hne : Nat.digits 10 c ≠ [] := Nat.digits_ne_nil_iff_ne_zero.2 (by omega)
  rw [Nat.digits_base_pow_mul (by decide) hc]
  simp only [layoutF, Decimal.ofNat, List.length_reverse, List.reverse_reverse]
  generalize Nat.digits 10 c = ds at hne
  -- the trailing zeros of `c` and the rest of its digits
  obtain ⟨k, hk⟩ : ∃ k, ds.takeWhile (· = 0) = List.replicate k 0 :=
    ⟨_, List.eq_replicate_iff.2 ⟨rfl, fun d hd => by simpa using List.mem_takeWhile_imp hd⟩⟩
  have hsplit : ds = List.replicate k 0 ++ ds.dropWhile (· = 0) := by
    rw [← hk, List.takeWhile_append_dropWhile]
  have hlen : ds.length = k + (ds.dropWhile (· = 0)).length := by
    conv_lhs => rw [hsplit]
    rw [List.length_append, List.length_replicate]
  have hpos := List.length_pos_iff.2 hne
  rw [if_neg (by omega), if_pos (by omega)]
  have htake : ((ds.length : Int) + (z : Int)).toNat = ds.length + z := by omega
  rw [htake, List.take_of_length_le (by rw [List.length_reverse]; omega)]
  conv_rhs => rw [hsplit]
  have hzeros : ds.length + z - (ds.dropWhile (· = 0)).length = k + z := by omega
  rw [hzeros]
  simp only [List.reverse_append, List.map_append, List.reverse_replicate, List.map_replicate,
    List.append_assoc, List.append_cancel_left_eq]
  rw [List.replicate_add]
  rfl

/-- A whole number below a million prints as itself. -/
theorem layoutF_natCast (hm : 0 < m) (hexp : usesExponent (m : ℚ) = false) :
    layoutF (decimalOf (m : ℚ)) = (Nat.digits 10 m).reverse.map digitChar := by
  have hdecimal : decimalOf (m : ℚ) = shortestDecimal (m : ℚ) := by
    rw [decimalOf, if_neg (by exact_mod_cast (by omega : m ≠ 0)), abs_of_nonneg (Nat.cast_nonneg m)]
  have hpoint := length_le_point hm
  rw [usesExponent, hdecimal] at hexp
  have hsix : (Nat.digits 10 m).length ≤ 6 := by
    have h := of_decide_eq_false hexp
    omega
  have hmillion : m < 10 ^ 6 := (Nat.digits_length_le_iff (by decide) m).1 hsix
  obtain ⟨n, hn, hshortest, hspec⟩ := exists_shortest hm
  obtain ⟨hle, hreads⟩ := hspec (by omega)
  obtain ⟨hscale, hlow, hhigh⟩ := significant_natCast hm hn
  rw [hdecimal, hshortest]
  generalize significant (m : ℚ) n = sig at hscale hlow hhigh hreads
  obtain ⟨c, scale⟩ := sig
  dsimp only at hscale hlow hhigh hreads ⊢
  obtain ⟨z, hz⟩ : ∃ z : Nat, (Nat.digits 10 m).length = n + z := ⟨_, (Nat.add_sub_cancel' hle).symm⟩
  obtain rfl : scale = z := by omega
  have hc : 0 < c := lt_of_lt_of_le (by positivity) hlow
  have hvalue : (c : ℚ) * 10 ^ (z : Int) = ((10 ^ z * c : Nat) : ℚ) := by
    rw [zpow_natCast]
    push_cast
    ring
  have hsmall : 10 ^ z * c < 2 ^ 53 := by
    have hmul : 10 ^ z * c ≤ 10 ^ (n + z) := by
      rw [Nat.pow_add, Nat.mul_comm]
      exact Nat.mul_le_mul_right _ hhigh
    have hpow : 10 ^ (n + z) ≤ 10 ^ 6 := Nat.pow_le_pow_right (by decide) (by omega)
    omega
  rw [hvalue, nearestFloat_natCast (by positivity) hsmall,
    nearestFloat_natCast hm (by omega), Nat.cast_inj] at hreads
  rw [layoutF_ofNat hc, hreads]

end

/-! ## Integers -/

/-- Without an exponent, a whole number prints as the integer it is. -/
theorem formatG_intCast {n : Int} (hexp : usesExponent (n : ℚ) = false) :
    formatG (.fin n) = toString n := by
  rw [formatG_eq_formatF hexp]
  have habs : decimalOf (n : ℚ) = decimalOf (n.natAbs : ℚ) := by
    simp only [decimalOf, Nat.cast_natAbs, Int.cast_eq_zero, abs_abs, Int.cast_abs, abs_eq_zero]
  have hdigits : layoutF (decimalOf (n : ℚ)) = (toString n.natAbs).toList := by
    by_cases hzero : n = 0
    · subst hzero
      decide
    · have hpos : 0 < n.natAbs := Int.natAbs_pos.2 hzero
      have hexp' : usesExponent (n.natAbs : ℚ) = false := by
        rw [usesExponent, ← habs]
        exact hexp
      rw [habs, layoutF_natCast hpos hexp', ← toDigits_eq_digits hpos]
      exact Nat.toList_repr.symm
  rw [formatF, signed, hdigits, Int.toString_eq_repr, Int.repr_eq_if]
  rcases lt_or_ge n 0 with hneg | hnonneg
  · rw [if_pos (by exact_mod_cast hneg), if_neg (by omega), String.ofList_cons,
      String.ofList_toList, Nat.toString_eq_repr, show n.natAbs = (-n).toNat by omega]
    rfl
  · rw [if_neg (by exact_mod_cast not_lt.2 hnonneg), if_pos hnonneg, String.ofList_toList,
      Nat.toString_eq_repr, show n.natAbs = n.toNat by omega]

end Go
