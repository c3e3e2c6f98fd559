import Konnekt.Go.Decimal

/-!
# Rounding to binary places

The leading place of a value, its last place as a `float64`, and the values that
are rounded to a given one: a neighbourhood of a twenty-quadrillionth, and nothing
finite from half a unit below the limit on.
-/

namespace Go

/-! ## Leading places -/

/-- The greatest power below a value, known up to one place. -/
theorem zpow_bracket {b q : ℚ} {e : Int} (hlow : b ^ (e - 1) ≤ q) (hhigh : q < b ^ (e + 1)) :
    b ^ (if b ^ e ≤ q then e else e - 1) ≤ q ∧
      q < b ^ ((if b ^ e ≤ q then e else e - 1) + 1) := by
  split_ifs with h
  · exact ⟨h, hhigh⟩
  · rw [Int.sub_add_cancel]
    exact ⟨hlow, lt_of_not_ge h⟩

/-- The place of a quotient, from those of its parts. -/
theorem zpow_le_div_lt {b n d i j : Nat} (hb : 0 < b) (hn : b ^ i ≤ n) (hn' : n < b ^ (i + 1))
    (hd : b ^ j ≤ d) (hd' : d < b ^ (j + 1)) :
    (b : ℚ) ^ ((i : Int) - j - 1) ≤ (n : ℚ) / d ∧ (n : ℚ) / d < (b : ℚ) ^ ((i : Int) - j + 1) := by
  have hb' : (b : ℚ) ≠ 0 := by exact_mod_cast hb.ne'
  have hj : (0 : ℚ) < (b : ℚ) ^ j := by positivity
  have hdpos : (0 : ℚ) < d := lt_of_lt_of_le hj (by exact_mod_cast hd)
  constructor
  · have hsplit : (b : ℚ) ^ ((i : Int) - j - 1) = (b : ℚ) ^ i / (b : ℚ) ^ (j + 1) := by
      rw [show (i : Int) - j - 1 = (i : Int) - ((j + 1 : Nat) : Int) by push_cast; ring,
        zpow_sub₀ hb', zpow_natCast, zpow_natCast]
    rw [hsplit]
    apply div_le_div₀ (by positivity) (by exact_mod_cast hn) hdpos
    exact_mod_cast hd'.le
  · have hsplit : (b : ℚ) ^ ((i : Int) - j + 1) = (b : ℚ) ^ (i + 1) / (b : ℚ) ^ j := by
      rw [show (i : Int) - j + 1 = ((i + 1 : Nat) : Int) - (j : Int) by push_cast; ring,
        zpow_sub₀ hb', zpow_natCast, zpow_natCast]
    rw [hsplit]
    apply div_lt_div₀ (by exact_mod_cast hn') (by exact_mod_cast hd) (by positivity) hj

theorem natAbs_num_div_den {q : ℚ} (hq : 0 < q) : (q.num.natAbs : ℚ) / q.den = q := by
  rw [Nat.cast_natAbs, abs_of_nonneg (Rat.num_nonneg.2 hq.le), Rat.num_div_den]

theorem binaryExponent_spec {q : ℚ} (hq : 0 < q) :
    (2 : ℚ) ^ binaryExponent q ≤ q ∧ q < 2 ^ (binaryExponent q + 1) := by
  have hnum : q.num.natAbs ≠ 0 := Int.natAbs_ne_zero.2 (Rat.num_pos.2 hq).ne'
  obtain ⟨hlow, hhigh⟩ := zpow_le_div_lt (b := 2) (by decide) (Nat.log2_self_le hnum)
    Nat.lt_log2_self (Nat.log2_self_le q.den_pos.ne') Nat.lt_log2_self
  rw [natAbs_num_div_den hq] at hlow hhigh
  exact zpow_bracket hlow hhigh

theorem decimalPoint_spec {q : ℚ} (hq : 0 < q) :
    (10 : ℚ) ^ (decimalPoint q - 1) ≤ q ∧ q < 10 ^ decimalPoint q := by
  have hnum : q.num.natAbs ≠ 0 := Int.natAbs_ne_zero.2 (Rat.num_pos.2 hq).ne'
  have hplaces : ∀ n : Nat, n ≠ 0 → 10 ^ ((Nat.digits 10 n).length - 1) ≤ n ∧
      n < 10 ^ ((Nat.digits 10 n).length - 1 + 1) ∧ 0 < (Nat.digits 10 n).length := by
    intro n hn
    have hpos : 0 < (Nat.digits 10 n).length :=
      List.length_pos_iff.2 (Nat.digits_ne_nil_iff_ne_zero.2 hn)
    refine ⟨(Nat.lt_digits_length_iff (by decide) n).1 (by omega), ?_, hpos⟩
    exact (Nat.digits_length_le_iff (by decide) n).1 (by omega)
  obtain ⟨hn, hn', hnpos⟩ := hplaces _ hnum
  obtain ⟨hd, hd', hdpos⟩ := hplaces _ q.den_pos.ne'
  obtain ⟨hlow, hhigh⟩ := zpow_le_div_lt (b := 10) (by decide) hn hn' hd hd'
  rw [natAbs_num_div_den hq] at hlow hhigh
  have hexp : (((Nat.digits 10 q.num.natAbs).length - 1 : Nat) : Int) -
      ((Nat.digits 10 q.den).length - 1 : Nat) =
        ((Nat.digits 10 q.num.natAbs).length : Int) - (Nat.digits 10 q.den).length := by omega
  rw [hexp, Nat.cast_ofNat] at hlow hhigh
  have hbracket := zpow_bracket hlow hhigh
  have hpoint : decimalPoint q - 1 = if (10 : ℚ) ^ (((Nat.digits 10 q.num.natAbs).length : Int) -
      (Nat.digits 10 q.den).length) ≤ q then
        ((Nat.digits 10 q.num.natAbs).length : Int) - (Nat.digits 10 q.den).length
      else ((Nat.digits 10 q.num.natAbs).length : Int) - (Nat.digits 10 q.den).length - 1 := by
    unfold decimalPoint
    dsimp only
    split_ifs <;> ring
  rw [← hpoint, Int.sub_add_cancel] at hbracket
  exact hbracket

/-! ## Rounding to whole numbers -/

/-- A value splits into the whole number below and a remainder. -/
theorem eq_div_add_mod {q : ℚ} (hq : 0 ≤ q) :
    q = (q.num.natAbs / q.den : Nat) + ((q.num.natAbs % q.den : Nat) : ℚ) / q.den := by
  have hden : (0 : ℚ) < q.den := by exact_mod_cast q.den_pos
  have hnum : (q.num.natAbs : ℚ) = q * q.den := by
    rw [Nat.cast_natAbs, abs_of_nonneg (Rat.num_nonneg.2 hq), Rat.mul_den_eq_num]
  have hsplit : ((q.den * (q.num.natAbs / q.den) + q.num.natAbs % q.den : Nat) : ℚ) =
      q.num.natAbs := by rw [Nat.div_add_mod]
  push_cast at hsplit
  rw [hnum] at hsplit
  field_simp
  linarith

/-- The rounding is at most a half away. -/
theorem roundEven_sub_le {q : ℚ} (hq : 0 ≤ q) : |(roundEven q : ℚ) - q| ≤ 1 / 2 := by
  have hden : (0 : ℚ) < q.den := by exact_mod_cast q.den_pos
  have hsplit := eq_div_add_mod hq
  have hmod : ((q.num.natAbs % q.den : Nat) : ℚ) ≤ q.den := by
    exact_mod_cast (Nat.mod_lt _ q.den_pos).le
  unfold roundEven
  dsimp only
  generalize q.num.natAbs / q.den = n at hsplit
  generalize q.num.natAbs % q.den = r at hsplit hmod
  have hr : (0 : ℚ) ≤ (r : ℚ) / q.den := by positivity
  have hlow : 2 * r ≤ q.den → (r : ℚ) / q.den ≤ 1 / 2 := by
    intro h
    rw [div_le_iff₀ hden]
    have hcast : (2 : ℚ) * r ≤ q.den := by exact_mod_cast h
    linarith
  have hhigh : q.den ≤ 2 * r → 1 / 2 ≤ (r : ℚ) / q.den ∧ (r : ℚ) / q.den ≤ 1 := by
    intro h
    have hcast : (q.den : ℚ) ≤ 2 * r := by exact_mod_cast h
    exact ⟨by rw [le_div_iff₀ hden]; linarith, by rw [div_le_iff₀ hden]; linarith⟩
  rw [abs_le]
  split_ifs with h₁ h₂ h₃
  · have := hlow h₁.le
    constructor <;> linarith
  · have := hhigh h₂.le
    push_cast
    constructor <;> linarith [this.1, this.2]
  · have := hlow (not_lt.1 h₂)
    constructor <;> linarith
  · have := hhigh (not_lt.1 h₁)
    push_cast
    constructor <;> linarith [this.1, this.2]

/-- A value that is closer than a half to a whole number is rounded to it. -/
theorem roundEven_of_close {q : ℚ} {m : Nat} (hq : 0 ≤ q) (h : |q - m| < 1 / 2) :
    roundEven q = m := by
  have herror := roundEven_sub_le hq
  have hdist : |(roundEven q : ℚ) - m| < 1 := by
    have htriangle := abs_sub_le (roundEven q : ℚ) q m
    linarith
  have hint : |(roundEven q : Int) - m| < 1 := by
    have hcast : ((|(roundEven q : Int) - m| : Int) : ℚ) < 1 := by
      push_cast
      exact hdist
    exact_mod_cast hcast
  have hzero := Int.abs_lt_one_iff.1 hint
  omega

/-- From half a unit below an even number on, rounding is no lower than that number. -/
theorem le_roundEven_of_even {q : ℚ} {k : Nat} (hk : k % 2 = 0) (h : (k : ℚ) - 1 / 2 ≤ q) :
    k ≤ roundEven q := by
  rcases Nat.eq_zero_or_pos k with rfl | hpos
  · exact Nat.zero_le _
  have hone : (1 : ℚ) ≤ k := by exact_mod_cast hpos
  have hq : 0 ≤ q := by linarith
  have hden : (0 : ℚ) < q.den := by exact_mod_cast q.den_pos
  have hsplit := eq_div_add_mod hq
  have hmod : q.num.natAbs % q.den < q.den := Nat.mod_lt _ q.den_pos
  unfold roundEven
  dsimp only
  generalize q.num.natAbs / q.den = n at hsplit
  generalize q.num.natAbs % q.den = r at hsplit hmod
  have hfraction : (r : ℚ) / q.den < 1 := by
    rw [div_lt_one hden]
    exact_mod_cast hmod
  have hn : k ≤ n + 1 := by
    by_contra hlt
    have hcast : ((n + 2 : Nat) : ℚ) ≤ k := by exact_mod_cast (by omega : n + 2 ≤ k)
    push_cast at hcast
    linarith
  by_cases heq : k = n + 1
  · have hhalf : 1 / 2 ≤ (r : ℚ) / q.den := by
      rw [heq] at h
      push_cast at h
      linarith
    rw [le_div_iff₀ hden] at hhalf
    have hle : q.den ≤ 2 * r := by
      have hcast : (q.den : ℚ) ≤ 2 * r := by linarith
      exact_mod_cast hcast
    split_ifs <;> omega
  · split_ifs <;> omega

/-! ## Values that are exact -/

/-- The exponent of the last place of a value. -/
def lastPlace (q : ℚ) : Int := max (binaryExponent q - 52) (-1074)

theorem nearestFloat_eq (q : ℚ) :
    nearestFloat q = (roundEven (q / 2 ^ lastPlace q) : ℚ) * 2 ^ lastPlace q := rfl

/-- A value closer to a multiple of its last place than half of it is rounded to the multiple. -/
theorem nearestFloat_of_close {d : ℚ} {m : Nat} (hd : 0 < d)
    (h : |d - m * 2 ^ lastPlace d| < 2 ^ lastPlace d / 2) :
    nearestFloat d = m * 2 ^ lastPlace d := by
  have hunit : (0 : ℚ) < 2 ^ lastPlace d := zpow_pos (by norm_num) _
  have hclose : |d / 2 ^ lastPlace d - m| < 1 / 2 := by
    have hsplit : d / 2 ^ lastPlace d - m = (d - m * 2 ^ lastPlace d) / 2 ^ lastPlace d := by
      field_simp
    rw [hsplit, abs_div, abs_of_pos hunit, div_lt_iff₀ hunit]
    linarith
  rw [nearestFloat_eq, roundEven_of_close (div_nonneg hd.le hunit.le) hclose]

/-- A value that is a `float64` is a multiple of its last place, with at most 53 bits. -/
theorem exists_mantissa {q : ℚ} (hq : 0 < q) (hexact : nearestFloat q = q) :
    ∃ m : Nat, q = m * 2 ^ lastPlace q ∧ m < 2 ^ 53 ∧
      (m + 1 : Nat) * (2 : ℚ) ^ lastPlace q ≤ 2 ^ (binaryExponent q + 1) := by
  obtain ⟨-, hhigh⟩ := binaryExponent_spec hq
  have hunit : (0 : ℚ) < 2 ^ lastPlace q := zpow_pos (by norm_num) _
  refine ⟨roundEven (q / 2 ^ lastPlace q), hexact.symm, ?_⟩
  have hvalue : q = (roundEven (q / 2 ^ lastPlace q) : ℚ) * 2 ^ lastPlace q := hexact.symm
  generalize roundEven (q / 2 ^ lastPlace q) = m at hvalue
  have hone : 1 ≤ m := by
    by_contra hzero
    obtain rfl : m = 0 := by omega
    rw [Nat.cast_zero, zero_mul] at hvalue
    exact absurd hq (hvalue ▸ lt_irrefl _)
  -- the places between the last one and the leading one
  have hle : lastPlace q < binaryExponent q + 1 := by
    by_contra hge
    have hpow : (2 : ℚ) ^ (binaryExponent q + 1) ≤ 2 ^ lastPlace q :=
      zpow_le_zpow_right₀ (by norm_num) (not_lt.1 hge)
    have hmul : (2 : ℚ) ^ lastPlace q ≤ m * 2 ^ lastPlace q :=
      le_mul_of_one_le_left hunit.le (by exact_mod_cast hone)
    linarith
  obtain ⟨k, hk⟩ := Int.eq_ofNat_of_zero_le (by omega : 0 ≤ binaryExponent q + 1 - lastPlace q)
  have hplaces : k ≤ 53 := by
    have hlast : binaryExponent q - 52 ≤ lastPlace q := le_max_left _ _
    omega
  have htop : (2 : ℚ) ^ (binaryExponent q + 1) = ((2 ^ k : Nat) : ℚ) * 2 ^ lastPlace q := by
    rw [Nat.cast_pow, Nat.cast_ofNat, ← zpow_natCast, ← zpow_add₀ (by norm_num)]
    congr 1
    omega
  have hbelow : (m : ℚ) * 2 ^ lastPlace q < ((2 ^ k : Nat) : ℚ) * 2 ^ lastPlace q := by
    rw [← htop, ← hvalue]
    exact hhigh
  have hm : m < 2 ^ k := by exact_mod_cast lt_of_mul_lt_mul_right hbelow hunit.le
  refine ⟨lt_of_lt_of_le hm (Nat.pow_le_pow_right (by decide) hplaces), ?_⟩
  rw [htop]
  apply mul_le_mul_of_nonneg_right _ hunit.le
  exact_mod_cast hm

/-- A value within a twenty-quadrillionth of a `float64` is rounded to it. -/
theorem nearestFloat_of_near {q d : ℚ} (hq : 0 < q) (hexact : nearestFloat q = q)
    (hnear : |d - q| ≤ q / (2 * 10 ^ 16)) : nearestFloat d = q := by
  obtain ⟨m, hvalue, hm, htop⟩ := exists_mantissa hq hexact
  obtain ⟨hlow, hhigh⟩ := binaryExponent_spec hq
  have hunit : (0 : ℚ) < 2 ^ lastPlace q := zpow_pos (by norm_num) _
  have hm' : (m : ℚ) < 2 ^ 53 := by exact_mod_cast hm
  obtain ⟨hbelow, habove⟩ := abs_le.1 hnear
  have hd : 0 < d := by
    have hfraction : q / (2 * 10 ^ 16) < q := div_lt_self hq (by norm_num)
    linarith
  obtain ⟨hdlow, hdhigh⟩ := binaryExponent_spec hd
  -- the distance is less than half of the last place of `q`
  have hdist : q / (2 * 10 ^ 16) < 2 ^ lastPlace q * (23 / 50) := by
    rw [div_lt_iff₀ (by norm_num)]
    have hbound : q < 2 ^ 53 * 2 ^ lastPlace q :=
      lt_of_eq_of_lt hvalue (mul_lt_mul_of_pos_right hm' hunit)
    linarith
  have hexpLe : binaryExponent d ≤ binaryExponent q := by
    have hdtop : d < 2 ^ (binaryExponent q + 1) := by
      push_cast at htop
      linarith
    have hpow : (2 : ℚ) ^ binaryExponent d < 2 ^ (binaryExponent q + 1) := lt_of_le_of_lt hdlow hdtop
    have := (zpow_lt_zpow_iff_right₀ (by norm_num : (1 : ℚ) < 2)).1 hpow
    omega
  have hexpGe : binaryExponent q - 1 ≤ binaryExponent d := by
    have hhalf : (2 : ℚ) ^ (binaryExponent q - 1) = 2 ^ binaryExponent q / 2 := by
      rw [zpow_sub_one₀ (by norm_num)]
      rfl
    have hpow : (2 : ℚ) ^ (binaryExponent q - 1) < 2 ^ (binaryExponent d + 1) := by
      linarith
    have := (zpow_lt_zpow_iff_right₀ (by norm_num : (1 : ℚ) < 2)).1 hpow
    omega
  by_cases hplace : lastPlace d = lastPlace q
  · rw [nearestFloat_of_close hd, hplace]
    · exact hvalue.symm
    · rw [hplace, ← hvalue]
      linarith
  · -- only below a power of two is the last place of `d` a finer one
    have hfiner : lastPlace d = lastPlace q - 1 ∧ lastPlace q = binaryExponent q - 52 ∧
        binaryExponent d + 1 = binaryExponent q := by
      unfold lastPlace at hplace ⊢
      omega
    obtain ⟨hunit', hlast, hexp⟩ := hfiner
    have hpower : q = 2 ^ 52 * 2 ^ lastPlace q := by
      have hsplit : (2 : ℚ) ^ binaryExponent q = 2 ^ 52 * 2 ^ lastPlace q := by
        rw [hlast, ← zpow_natCast, ← zpow_add₀ (by norm_num)]
        congr 1
        push_cast
        ring
      rw [hexp, hsplit] at hdhigh
      rw [hsplit] at hlow
      have hmLow : 2 ^ 52 ≤ m := by
        have hcast := le_of_mul_le_mul_right (hlow.trans_eq hvalue) hunit
        exact_mod_cast hcast
      have hmHigh : m < 2 ^ 52 + 1 := by
        have hlt : (m : ℚ) * 2 ^ lastPlace q < (2 ^ 52 + 1) * 2 ^ lastPlace q := by linarith
        have hcast := lt_of_mul_lt_mul_right hlt hunit.le
        exact_mod_cast hcast
      have hmEq : m = 2 ^ 52 := by omega
      rw [hmEq] at hvalue
      exact_mod_cast hvalue
    have hhalf : (2 : ℚ) ^ (lastPlace q - 1) = 2 ^ lastPlace q / 2 := by
      rw [zpow_sub_one₀ (by norm_num)]
      rfl
    have hdouble : ((2 ^ 53 : Nat) : ℚ) * 2 ^ lastPlace d = q := by
      rw [hunit', hhalf]
      push_cast
      linarith
    rw [nearestFloat_of_close hd, hdouble]
    rw [hdouble, hunit', hhalf]
    linarith

/-- The powers around the largest finite value, over half of its last place. -/
theorem exists_topPowers : ∃ x : ℚ, 0 < x ∧ float64Limit = (2 ^ 54 - 1) * x ∧
    (2 : ℚ) ^ (1024 : Int) = 2 ^ 54 * x ∧ (2 : ℚ) ^ (1023 : Int) = 2 ^ 53 * x ∧
      (2 : ℚ) ^ (971 : Int) = 2 * x := by
  refine ⟨2 ^ (970 : Int), zpow_pos (by norm_num) _, ?_, ?_, ?_, ?_⟩
  · have hsplit : (2 : ℚ) ^ (1024 : Int) = 2 ^ (54 : Int) * 2 ^ (970 : Int) :=
      zpow_add₀ (by norm_num) 54 970
    rw [float64Limit, sub_mul, one_mul]
    exact congrArg (· - (2 : ℚ) ^ (970 : Int)) hsplit
  · exact zpow_add₀ (by norm_num) 54 970
  · exact zpow_add₀ (by norm_num) 53 970
  · exact zpow_add₀ (by norm_num) 1 970

/-- A value from half a unit below `2 ^ 1024` on is rounded past every finite value. -/
theorem le_nearestFloat_of_limit {d : ℚ} (h : float64Limit ≤ d) :
    (2 : ℚ) ^ (1024 : Int) ≤ nearestFloat d := by
  obtain ⟨x, hx, hlimit, htop, hbinade, hlast⟩ := exists_topPowers
  rw [hlimit] at h
  have hbinade_le : (2 : ℚ) ^ (1023 : Int) ≤ d := by
    rw [hbinade]
    linarith only [h, hx]
  have hd : 0 < d := lt_of_lt_of_le (zpow_pos (by norm_num) _) hbinade_le
  obtain ⟨hlow, hhigh⟩ := binaryExponent_spec hd
  have hexp : 1023 ≤ binaryExponent d := by
    have hpow := lt_of_le_of_lt hbinade_le hhigh
    have := (zpow_lt_zpow_iff_right₀ (by norm_num : (1 : ℚ) < 2)).1 hpow
    omega
  have hplace : lastPlace d = binaryExponent d - 52 := by
    unfold lastPlace
    omega
  have hunit : (0 : ℚ) < 2 ^ lastPlace d := zpow_pos (by norm_num) _
  rw [nearestFloat_eq]
  rcases Int.lt_or_eq_of_le hexp with hgt | heq
  · have hpower : (2 : ℚ) ^ binaryExponent d = (2 ^ 52 : Nat) * 2 ^ lastPlace d := by
      rw [hplace, Nat.cast_pow, Nat.cast_ofNat, ← zpow_natCast, ← zpow_add₀ (by norm_num)]
      congr 1
      push_cast
      ring
    have hround : 2 ^ 52 ≤ roundEven (d / 2 ^ lastPlace d) := by
      apply le_roundEven
      rw [le_div_iff₀ hunit, ← hpower]
      exact hlow
    calc (2 : ℚ) ^ (1024 : Int) ≤ 2 ^ binaryExponent d :=
          zpow_le_zpow_right₀ (by norm_num) (by omega)
      _ = (2 ^ 52 : Nat) * 2 ^ lastPlace d := hpower
      _ ≤ _ := mul_le_mul_of_nonneg_right (by exact_mod_cast hround) hunit.le
  · -- the last binade: half a unit below the next one is rounded up to it
    have hunit' : (2 : ℚ) ^ lastPlace d = 2 * x := by
      rw [hplace, ← heq]
      exact hlast
    have hround : 2 ^ 53 ≤ roundEven (d / 2 ^ lastPlace d) := by
      apply le_roundEven_of_even (by norm_num)
      rw [le_div_iff₀ hunit, hunit']
      push_cast
      linarith only [h, hx]
    calc (2 : ℚ) ^ (1024 : Int) = (2 ^ 53 : Nat) * (2 : ℚ) ^ lastPlace d := by
          rw [hunit', htop]
          push_cast
          ring
      _ ≤ _ := mul_le_mul_of_nonneg_right (by exact_mod_cast hround) hunit.le

end Go
