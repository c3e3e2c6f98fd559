import Konnekt.Codes.BinaryField
import Konnekt.Codes.ShiftRegister
import Konnekt.Qr.ReedSolomon
import Mathlib

/-!
# Error correction codewords are a remainder

The bytes are GF(256), and the table of powers holds those of alpha for as long as it is. The
generator is the product of `x - alpha ^ i`, one factor a round, and the register of the encoder
divides by it. A round past the end of the table multiplies by `x` instead.
-/

namespace Konnekt.Qr

open Codes Polynomial

/-! ## The field -/

noncomputable def modulus : (ZMod 2)[X] := X ^ 8 + X ^ 4 + X ^ 3 + X ^ 2 + 1

theorem modulus_natDegree : modulus.natDegree = 8 := by
  unfold modulus
  compute_degree!

theorem modulus_monic : modulus.Monic := by
  unfold modulus
  monicity!

/-- GF(256). -/
abbrev GF256 := AdjoinRoot modulus

theorem modulus_degree : modulus.degree ≠ 0 := by
  rw [degree_eq_natDegree modulus_monic.ne_zero, modulus_natDegree]
  decide

instance : Nontrivial GF256 := AdjoinRoot.nontrivial modulus modulus_degree

instance : CharP GF256 2 := charP_of_degree modulus_degree

noncomputable def alpha : GF256 := AdjoinRoot.root modulus

/-- What a number stands for: bit `k` of it is the coefficient of `alpha ^ k`. -/
noncomputable def element (n : Nat) : GF256 := ofBits alpha n

@[simp] theorem element_zero : element 0 = 0 := ofBits_zero alpha

@[simp] theorem element_one : element 1 = 1 := ofBits_one alpha

theorem element_xor (m n : Nat) : element (m ^^^ n) = element m + element n := ofBits_xor alpha m n

theorem element_bijOn : Set.BijOn element (Set.Iio 256) Set.univ := by
  have h := ofBits_bijOn modulus_monic
  rwa [modulus_natDegree] at h

theorem element_inj {m n : Nat} (hm : m < 256) (hn : n < 256) (h : element m = element n) :
    m = n :=
  element_bijOn.injOn hm hn h

theorem element_fieldPoly : element fieldPoly = 0 := by
  have hbits : fieldPoly.bitIndices = [0, 2, 3, 4, 8] := by decide
  have hroot : AdjoinRoot.mk modulus modulus = 0 := AdjoinRoot.mk_self
  rw [element, ofBits, hbits]
  conv at hroot => lhs; arg 2; unfold modulus
  simp only [map_add, map_pow, AdjoinRoot.mk_X, map_one] at hroot
  simp only [List.map_cons, List.map_nil, List.sum_cons, List.sum_nil, alpha, pow_zero]
  linear_combination hroot

/-- Doubling is multiplication by alpha. -/
theorem element_doubled (x : Nat) : element (doubled x) = alpha * element x := by
  have hshift : element (x <<< 1) = alpha * element x := ofBits_shiftLeft alpha x
  unfold doubled
  dsimp only
  split
  · rw [element_xor, element_fieldPoly, add_zero, hshift]
  · exact hshift

theorem doubled_lt {x : Nat} (hx : x < 256) : doubled x < 256 := by
  have h : (List.range 256).all fun x => doubled x < 256 := by decide +kernel
  simpa using List.all_eq_true.1 h x (List.mem_range.2 hx)

/-! ## The powers of alpha -/

/-- The number that stands for `alpha ^ j`. -/
def power (j : Nat) : Nat := doubled^[j] 1

theorem power_succ (j : Nat) : power (j + 1) = doubled (power j) :=
  Function.iterate_succ_apply' doubled j 1

theorem power_lt (j : Nat) : power j < 256 := by
  induction j with
  | zero => decide
  | succ j ih => rw [power_succ]; exact doubled_lt ih

theorem element_power (j : Nat) : element (power j) = alpha ^ j := by
  induction j with
  | zero => exact element_one
  | succ j ih => rw [power_succ, element_doubled, ih, pow_succ']

theorem power_eq_one : power 255 = 1 := by decide +kernel

/-- The powers repeat after a period of 255 and no sooner. -/
theorem orderOf_alpha : orderOf alpha = 255 := by
  refine orderOf_eq_of_pow_and_pow_div_prime (by decide) ?_ fun p hp hdvd hone => ?_
  · rw [← element_power, power_eq_one, element_one]
  · have hlow : power (255 / p) = 1 := by
      refine element_inj (power_lt _) (by decide) ?_
      rw [element_power, hone, element_one]
    have h3517 : p = 3 ∨ p = 5 ∨ p = 17 := by
      rw [show 255 = 3 * (5 * 17) by rfl, hp.dvd_mul, hp.dvd_mul] at hdvd
      simpa only [Nat.prime_dvd_prime_iff_eq hp Nat.prime_three,
        Nat.prime_dvd_prime_iff_eq hp Nat.prime_five,
        Nat.prime_dvd_prime_iff_eq hp (by decide : Nat.Prime 17)] using hdvd
    have hnot : power 85 ≠ 1 ∧ power 51 ≠ 1 ∧ power 15 ≠ 1 := by decide +kernel
    obtain rfl | rfl | rfl := h3517
    · exact hnot.1 hlow
    · exact hnot.2.1 hlow
    · exact hnot.2.2 hlow

theorem alpha_injOn {i j : Nat} (hi : i < 255) (hj : j < 255) (h : alpha ^ i = alpha ^ j) :
    i = j :=
  pow_injOn_Iio_orderOf (by rwa [orderOf_alpha]) (by rwa [orderOf_alpha]) h

theorem orderOf_root : orderOf (AdjoinRoot.root modulus) = 2 ^ modulus.natDegree - 1 := by
  rw [modulus_natDegree]
  exact orderOf_alpha

theorem modulus_natDegree_pos : 0 < modulus.natDegree := by
  rw [modulus_natDegree]
  decide

theorem isUnit_alpha : IsUnit alpha := isUnit_root orderOf_root modulus_natDegree_pos

theorem isField_GF256 : IsField GF256 :=
  isField_of_orderOf modulus_monic orderOf_root modulus_natDegree_pos

/-- A byte other than zero is a power of alpha. -/
theorem exists_power {b : Nat} (hb : b < 256) (h0 : b ≠ 0) : ∃ j < 255, b = power j := by
  have hne : element b ≠ 0 := fun h => h0 (element_inj hb (by decide) (h.trans element_zero.symm))
  obtain ⟨j, hj, hpow⟩ := exists_pow_eq modulus_monic orderOf_root modulus_natDegree_pos hne
  rw [modulus_natDegree] at hj
  exact ⟨j, hj, element_inj hb (power_lt j) (by rw [element_power]; exact hpow.symm)⟩

theorem power_inj {i j : Nat} (hi : i < 255) (hj : j < 255) (h : power i = power j) : i = j :=
  alpha_injOn hi hj (by rw [← element_power, h, element_power])

theorem power_period (j : Nat) : power (255 + j) = power j := by
  rw [Nat.add_comm, power, Function.iterate_add_apply, ← power, power_eq_one, ← power]

/-! ## The tables -/

/-- What the first loop has filled after `k` rounds. -/
structure Filled (k : Nat) (s : Nat × Tables) : Prop where
  next : s.1 = power k
  expLength : s.2.exp.length = 512
  logLength : s.2.log.length = 256
  exp : ∀ j < k, s.2.exp[j]? = some (power j)
  log : ∀ j < k, s.2.log[power j]? = some j

theorem getElem?_store {table : List Nat} {i v : Nat} (hi : i < table.length) (hv : v < 256) :
    (store table i v)[i]? = some v := by
  rw [store, List.getElem?_set_self hi, Nat.mod_eq_of_lt hv]

theorem getElem?_store_ne {table : List Nat} {i j v : Nat} (hij : i ≠ j) :
    (store table i v)[j]? = table[j]? := by
  rw [store, List.getElem?_set_ne hij]

@[simp] theorem length_store (table : List Nat) (i v : Nat) :
    (store table i v).length = table.length := List.length_set

theorem filled_step {k : Nat} (hk : k < 255) {s : Nat × Tables} (h : Filled k s) :
    Filled (k + 1) (fillStep s k) := by
  have hexp : k < s.2.exp.length := by rw [h.expLength]; omega
  have hlog : s.1 < s.2.log.length := by rw [h.logLength, h.next]; exact power_lt k
  refine ⟨?_, ?_, ?_, fun j hj => ?_, fun j hj => ?_⟩
  · rw [fillStep, h.next, power_succ]
  · rw [fillStep, length_store, h.expLength]
  · rw [fillStep, length_store, h.logLength]
  · obtain hj | rfl := Nat.lt_succ_iff_lt_or_eq.1 hj
    · exact (getElem?_store_ne hj.ne').trans (h.exp j hj)
    · rw [fillStep, getElem?_store hexp (by rw [h.next]; exact power_lt j), h.next]
  · obtain hj | rfl := Nat.lt_succ_iff_lt_or_eq.1 hj
    · -- the power of an earlier round is another one
      have hne : s.1 ≠ power j := by
        rw [h.next]
        exact fun heq => hj.ne' (power_inj hk (hj.trans hk) heq)
      exact (getElem?_store_ne hne).trans (h.log j hj)
    · rw [← h.next]
      exact getElem?_store hlog (by omega)

theorem filled_spec {k : Nat} (hk : k ≤ 255) :
    Filled k ((List.range k).foldl fillStep
      (1, ⟨List.replicate 512 0, List.replicate 256 0⟩)) := by
  induction k with
  | zero =>
    exact ⟨rfl, List.length_replicate, List.length_replicate,
      fun j hj => absurd hj (Nat.not_lt_zero j), fun j hj => absurd hj (Nat.not_lt_zero j)⟩
  | succ k ih =>
    rw [List.range_succ, List.foldl_append]
    exact filled_step hk (ih (Nat.le_of_succ_le hk))

/-- The second loop has the next powers in their places after `k` rounds. -/
theorem repeated_spec {k : Nat} (hk : k ≤ 257) :
    ((List.range' 255 k).foldl (fun exp i => store exp i (exp.getD (i - 255) 0))
        filled.exp).length = 512 ∧
      ∀ j < 255 + k, ((List.range' 255 k).foldl
        (fun exp i => store exp i (exp.getD (i - 255) 0)) filled.exp)[j]? = some (power j) := by
  induction k with
  | zero => exact ⟨(filled_spec le_rfl).expLength, (filled_spec le_rfl).exp⟩
  | succ k ih =>
    obtain ⟨hlength, hexp⟩ := ih (Nat.le_of_succ_le hk)
    rw [List.range'_1_concat, List.foldl_append, List.foldl_cons, List.foldl_nil]
    refine ⟨by rw [length_store, hlength], fun j hj => ?_⟩
    obtain hj | rfl := Nat.lt_succ_iff_lt_or_eq.1 (show j < (255 + k).succ from hj)
    · rw [getElem?_store_ne hj.ne', hexp j hj]
    · rw [Nat.add_sub_cancel_left, List.getD_eq_getElem?_getD, hexp k (by omega),
        Option.getD_some, getElem?_store (by rw [hlength]; omega) (power_lt k), power_period]

theorem tables_exp_length : tables.exp.length = 512 := by
  have h := (repeated_spec (k := 257) le_rfl).1
  unfold tables
  dsimp only
  exact h

theorem EXP_eq {i : Nat} (hi : i < 512) : EXP (some i) = some (power i) := by
  have h := (repeated_spec (k := 257) le_rfl).2 i (by omega)
  rw [EXP, element?, Option.bind_some]
  unfold tables
  dsimp only
  exact h

theorem EXP_eq_none {i : Nat} (hi : 512 ≤ i) : EXP (some i) = none := by
  rw [EXP, element?, Option.bind_some, List.getElem?_eq_none]
  rwa [tables_exp_length]

theorem LOG_eq {j : Nat} (hj : j < 255) : LOG (some (power j)) = some j := by
  have h := (filled_spec (k := 255) le_rfl).log j hj
  rw [LOG, element?, Option.bind_some]
  unfold tables filled
  dsimp only
  exact h

/-! ## Multiplication -/

/-- What a number that may be `undefined` counts as. -/
noncomputable def read (n : Option Nat) : GF256 := element (n.getD 0)

/-- The product of two bytes, or of a byte and what is past the end of the table. -/
theorem gfMul_spec {a : Nat} (ha : a < 256) {b : Option Nat} (hb : ∀ n ∈ b, n < 256) :
    (gfMul (some a) b).getD 0 < 256 ∧ read (gfMul (some a) b) = element a * read b := by
  by_cases h : some a = some 0 ∨ b = some 0
  · have hzero : element a * read b = 0 := by
      rcases h with h | rfl
      · rw [Option.some.inj h, element_zero, zero_mul]
      · rw [read, Option.getD_some, element_zero, mul_zero]
    rw [gfMul, if_pos h, hzero]
    exact ⟨by decide, element_zero⟩
  · have ha0 : a ≠ 0 := fun heq => h (Or.inl (congrArg some heq))
    obtain ⟨i, hi, rfl⟩ := exists_power ha ha0
    rw [gfMul, if_neg h, LOG_eq hi]
    cases b with
    | none =>
      have hnone : EXP (sum? (some i) (LOG none)) = none := rfl
      rw [hnone, read, Option.getD_none, element_zero, mul_zero]
      exact ⟨by decide, element_zero⟩
    | some b =>
      have hb0 : b ≠ 0 := fun heq => h (Or.inr (congrArg some heq))
      obtain ⟨j, hj, rfl⟩ := exists_power (hb b rfl) hb0
      have hsum : sum? (some i) (some j) = some (i + j) := rfl
      rw [LOG_eq hj, hsum, EXP_eq (by omega), read, read, Option.getD_some, Option.getD_some,
        element_power, element_power, element_power, pow_add]
      exact ⟨power_lt _, rfl⟩

theorem exists_gfMul {a b : Nat} (ha : a < 256) (hb : b < 256) :
    ∃ c, gfMul (some a) (some b) = some c := by
  by_cases h : some a = some 0 ∨ some b = some 0
  · exact ⟨0, if_pos h⟩
  · obtain ⟨i, hi, rfl⟩ := exists_power ha fun heq => h (Or.inl (congrArg some heq))
    obtain ⟨j, hj, rfl⟩ := exists_power hb fun heq => h (Or.inr (congrArg some heq))
    have hsum : sum? (some i) (some j) = some (i + j) := rfl
    exact ⟨power (i + j), by rw [gfMul, if_neg h, LOG_eq hi, LOG_eq hj, hsum, EXP_eq (by omega)]⟩

/-! ## The generator -/

/-- A list of codewords as a polynomial, highest power first. -/
noncomputable def poly (cs : List Nat) : GF256[X] := horner element cs

/-- Codewords that are bytes. -/
def Bytes (cs : List Nat) : Prop := ∀ c ∈ cs, c < 256

theorem bytes_modify {cs : List Nat} (h : Bytes cs) {n : Option Nat} (hn : n.getD 0 < 256)
    (i : Nat) : Bytes (cs.modify i (xorAssign n)) := by
  intro c hc
  obtain ⟨j, hj⟩ := List.getElem?_of_mem hc
  rw [List.getElem?_modify] at hj
  cases hget : cs[j]? with
  | none => rw [hget] at hj; cases hj
  | some b =>
    rw [hget] at hj
    have hb : b < 256 := h b (List.mem_of_getElem? hget)
    obtain rfl := Option.some.inj hj
    dsimp only
    split
    · exact Nat.xor_lt_two_pow (n := 8) hb hn
    · exact hb

theorem poly_modify (cs : List Nat) (n : Option Nat) {i : Nat} (hi : i < cs.length) :
    poly (cs.modify i (xorAssign n)) = poly cs + C (read n) * X ^ (cs.length - 1 - i) :=
  horner_modify (fun c => element_xor c (n.getD 0)) cs hi

theorem read_getElem? (cs : List Nat) (i : Nat) : read cs[i]? = element (cs.getD i 0) := by
  rw [read, List.getD_eq_getElem?_getD]

theorem getElem?_byte {cs : List Nat} (h : Bytes cs) (i : Nat) : cs[i]?.getD 0 < 256 := by
  cases hget : cs[i]? with
  | none => decide
  | some b => exact h b (List.mem_of_getElem? hget)

/-- A round of the outer loop multiplies by `x` plus the number given. -/
theorem multiplied_spec {cs : List Nat} (h : Bytes cs) {root : Option Nat}
    (hroot : ∀ n ∈ root, n < 256) :
    Bytes (multiplied cs root) ∧ (multiplied cs root).length = cs.length + 1 ∧
      poly (multiplied cs root) = poly cs * (X + C (read root)) := by
  have hstep : ∀ next, Bytes next → next.length = cs.length + 1 → ∀ j < cs.length,
      Bytes (multiplyStep cs root next j) ∧
      (multiplyStep cs root next j).length = cs.length + 1 ∧
      poly (multiplyStep cs root next j) = poly next +
        C (element (cs.getD j 0)) * X ^ (cs.length - 1 - j) * (X + C (read root)) := by
    intro next hnext hlength j hj
    have hget : cs[j]? = some cs[j] := List.getElem?_eq_getElem hj
    have hbyte : cs[j] < 256 := h _ (List.getElem_mem hj)
    obtain ⟨hlt, hprod⟩ := gfMul_spec hbyte hroot
    rw [← hget] at hlt hprod
    refine ⟨bytes_modify (bytes_modify hnext (getElem?_byte h j) j) hlt (j + 1), ?_, ?_⟩
    · rw [multiplyStep, List.length_modify, List.length_modify, hlength]
    · have hpow : X ^ (cs.length + 1 - 1 - j) = (X : GF256[X]) ^ (cs.length - 1 - j) * X := by
        rw [← pow_succ]
        congr 1
        omega
      have hlow : cs.length + 1 - 1 - (j + 1) = cs.length - 1 - j := by omega
      have helement : element cs[j] = element (cs.getD j 0) := by
        rw [List.getD_eq_getElem?_getD, hget, Option.getD_some]
      rw [multiplyStep, poly_modify _ _ (by rw [List.length_modify, hlength]; omega),
        poly_modify _ _ (by rw [hlength]; omega), List.length_modify, hlength, hpow, hlow,
        hprod, read_getElem?, helement, C_mul]
      ring
  have hzeros : Bytes (List.replicate (cs.length + 1) 0) := fun c hc => by
    rw [List.eq_of_mem_replicate hc]
    decide
  obtain ⟨hbytes, hlength, hpoly⟩ :=
    horner_foldl Bytes cs.length hstep hzeros List.length_replicate
  refine ⟨hbytes, hlength, ?_⟩
  have hzero : horner element (List.replicate (cs.length + 1) 0) = 0 :=
    horner_replicate element_zero _
  rw [poly, multiplied, hpoly, hzero, zero_add, ← Finset.sum_mul, poly, horner_eq_sum element cs 0]

/-- What round `i` adds to `x`: `alpha ^ i` while the table lasts, then nothing. -/
noncomputable def factor (i : Nat) : GF256 := read (EXP (some i))

theorem factor_eq {i : Nat} (hi : i < 512) : factor i = alpha ^ i := by
  rw [factor, EXP_eq hi, read, Option.getD_some, element_power]

theorem factor_eq_zero {i : Nat} (hi : 512 ≤ i) : factor i = 0 := by
  rw [factor, EXP_eq_none hi, read, Option.getD_none, element_zero]

theorem EXP_lt (i : Nat) : ∀ n ∈ EXP (some i), n < 256 := by
  intro n hn
  by_cases hi : i < 512
  · rw [EXP_eq hi] at hn
    obtain rfl := Option.some.inj hn
    exact power_lt i
  · rw [EXP_eq_none (Nat.le_of_not_lt hi)] at hn
    cases hn

theorem generatorOf_spec (degree : Nat) :
    Bytes (generatorOf degree) ∧ (generatorOf degree).length = degree + 1 ∧
      poly (generatorOf degree) = ∏ i ∈ Finset.range degree, (X + C (factor i)) := by
  induction degree with
  | zero =>
    refine ⟨fun c hc => ?_, rfl, ?_⟩
    · rw [List.eq_of_mem_singleton hc]
      decide
    · rw [generatorOf, List.range_zero, List.foldl_nil, poly, horner_cons]
      simp
  | succ degree ih =>
    obtain ⟨hbytes, hlength, hpoly⟩ := ih
    have hrounds : generatorOf (degree + 1) =
        multiplied (generatorOf degree) (EXP (some degree)) := by
      rw [generatorOf, List.range_succ, List.foldl_append]
      rfl
    obtain ⟨hbytes', hlength', hpoly'⟩ := multiplied_spec hbytes (EXP_lt degree)
    rw [hrounds]
    exact ⟨hbytes', hlength'.trans (congrArg (· + 1) hlength),
      by rw [hpoly', hpoly, Finset.prod_range_succ, factor]⟩

theorem monic_generatorOf (degree : Nat) : (poly (generatorOf degree)).Monic := by
  rw [(generatorOf_spec degree).2.2]
  exact monic_prod_of_monic _ _ fun i _ => monic_X_add_C _

theorem natDegree_generatorOf (degree : Nat) :
    (poly (generatorOf degree)).natDegree = degree := by
  rw [(generatorOf_spec degree).2.2, natDegree_prod_of_monic _ _ fun i _ => monic_X_add_C _]
  simp

/-- The leading coefficient is left out of the division. -/
theorem generatorOf_cons (degree : Nat) :
    ∃ c taps, generatorOf degree = c :: taps ∧ taps.length = degree ∧
      poly (generatorOf degree) = X ^ degree + poly taps := by
  have hlength := (generatorOf_spec degree).2.1
  cases hgen : generatorOf degree with
  | nil => rw [hgen] at hlength; cases hlength
  | cons c taps =>
    rw [hgen] at hlength
    have htaps : taps.length = degree := Nat.succ.inj hlength
    have hmonic := monic_generatorOf degree
    have hdegree := natDegree_generatorOf degree
    rw [hgen] at hmonic hdegree
    refine ⟨c, taps, rfl, htaps, ?_⟩
    rw [← htaps]
    exact horner_of_monic hmonic (hdegree.trans htaps.symm)

/-- Within the table the generator is the product of `x - alpha ^ i`. -/
theorem prod_factor {degree : Nat} (hdegree : degree ≤ 512) :
    ∏ i ∈ Finset.range degree, (X + C (factor i)) =
      ∏ i ∈ Finset.range degree, (X - C (alpha ^ i)) := by
  refine Finset.prod_congr rfl fun i hi => ?_
  rw [factor_eq ((Finset.mem_range.1 hi).trans_le hdegree), CharTwo.sub_eq_add]

/-! ## What is kept between calls -/

theorem rsGenerator_of_kept {generators : Generators}
    (h : ∀ degree p, generators.lookup degree = some p → p = generatorOf degree) (degree : Nat) :
    (rsGenerator generators degree).1 = generatorOf degree ∧
      ∀ d p, (rsGenerator generators degree).2.lookup d = some p → p = generatorOf d := by
  unfold rsGenerator
  cases hlookup : generators.lookup degree with
  | some cached => exact ⟨h degree cached hlookup, h⟩
  | none =>
    refine ⟨rfl, fun d p hp => ?_⟩
    rw [List.lookup_cons] at hp
    by_cases hd : d = degree
    · subst hd
      rw [beq_self_eq_true] at hp
      exact (Option.some.inj hp).symm
    · rw [beq_eq_false_iff_ne.2 hd] at hp
      exact h d p hp

theorem lookup_kept (calls : List Nat) :
    ∀ degree p, (kept calls).lookup degree = some p → p = generatorOf degree := by
  unfold kept
  induction calls using List.reverseRecOn with
  | nil => intro degree p hp; cases hp
  | append_singleton calls degree ih =>
    rw [List.foldl_append]
    exact (rsGenerator_of_kept ih degree).2

/-- Earlier calls do not change what a call returns. -/
theorem rsGenerator_kept (calls : List Nat) (degree : Nat) :
    (rsGenerator (kept calls) degree).1 = generatorOf degree :=
  (rsGenerator_of_kept (lookup_kept calls) degree).1

/-! ## The encoder -/

/-- One codeword through the register keeps it the remainder of what was shifted in. -/
theorem encodeStep_spec {degree : Nat} (hdegree : degree ≠ 0) {rem : List Nat} {p : GF256[X]}
    (hbytes : Bytes rem) (hlength : rem.length = degree)
    (h : poly (generatorOf degree) ∣ p * X ^ degree - poly rem) {byte : Nat} (hbyte : byte < 256) :
    Bytes (encodeStep (generatorOf degree) degree rem byte) ∧
      (encodeStep (generatorOf degree) degree rem byte).length = degree ∧
      poly (generatorOf degree) ∣ (p * X + C (element byte)) * X ^ degree -
        poly (encodeStep (generatorOf degree) degree rem byte) := by
  obtain ⟨c, taps, hgen, htaps, hpoly⟩ := generatorOf_cons degree
  have hgenBytes := (generatorOf_spec degree).1
  cases rem with
  | nil => exact absurd hlength.symm hdegree
  | cons first rest =>
    obtain rfl : degree = rest.length + 1 := hlength.symm
    have hfirst : first < 256 := hbytes first List.mem_cons_self
    have hfactor : byte ^^^ first < 256 := Nat.xor_lt_two_pow (n := 8) hbyte hfirst
    have hshifted : Bytes (rest ++ [0]) := by
      intro b hb
      rcases List.mem_append.1 hb with hb | hb
      · exact hbytes b (List.mem_cons_of_mem first hb)
      · rw [List.eq_of_mem_singleton hb]
        decide
    -- position `i` takes the factor times the generator's coefficient of the same power
    have hstep : ∀ cs, Bytes cs → cs.length = rest.length + 1 → ∀ i < rest.length + 1,
        Bytes (cs.modify i (xorAssign (gfMul (generatorOf (rest.length + 1))[i + 1]?
          (some (byte ^^^ first))))) ∧
        (cs.modify i (xorAssign (gfMul (generatorOf (rest.length + 1))[i + 1]?
          (some (byte ^^^ first))))).length = rest.length + 1 ∧
        poly (cs.modify i (xorAssign (gfMul (generatorOf (rest.length + 1))[i + 1]?
          (some (byte ^^^ first))))) =
          poly cs + C (element (byte ^^^ first)) *
            (C (element (taps.getD i 0)) * X ^ (taps.length - 1 - i)) := by
      intro cs hcs hlength i hi
      have hi' : i < taps.length := by rw [htaps]; exact hi
      have hget : (generatorOf (rest.length + 1))[i + 1]? = some taps[i] := by
        rw [hgen, List.getElem?_cons_succ, List.getElem?_eq_getElem hi']
      have htap : taps[i] < 256 := by
        refine hgenBytes _ ?_
        rw [hgen]
        exact List.mem_cons_of_mem c (List.getElem_mem hi')
      obtain ⟨hlt, hprod⟩ := gfMul_spec htap (b := some (byte ^^^ first))
        (fun n hn => by rw [← Option.some.inj hn]; exact hfactor)
      have helement : element taps[i] = element (taps.getD i 0) := by
        rw [List.getD_eq_getElem?_getD, List.getElem?_eq_getElem hi', Option.getD_some]
      rw [hget]
      refine ⟨bytes_modify hcs hlt i, by rw [List.length_modify, hlength], ?_⟩
      rw [poly_modify _ _ (by rw [hlength]; exact hi), hprod, hlength, htaps, helement, read,
        Option.getD_some, C_mul]
      ring
    obtain ⟨hbytes', hlength', hpoly'⟩ := horner_foldl Bytes (rest.length + 1) hstep hshifted
      (by rw [List.length_append, List.length_singleton])
    refine ⟨hbytes', hlength', ?_⟩
    have hfold : poly (encodeStep (generatorOf (rest.length + 1)) (rest.length + 1)
        (first :: rest) byte) =
          poly rest * X - C (element byte + element first) * poly taps := by
      have hsum : horner element taps = ∑ i ∈ Finset.range (rest.length + 1),
          C (element (taps.getD i 0)) * X ^ (taps.length - 1 - i) := by
        rw [← htaps]
        exact horner_eq_sum element taps 0
      rw [poly, encodeStep, List.head?_cons, Option.getD_some, List.tail_cons, hpoly',
        ← Finset.mul_sum, ← hsum, horner_concat, element_zero, C_0, add_zero, element_xor,
        CharTwo.sub_eq_add, poly, poly]
    rw [hfold]
    exact dvd_of_shift (element byte) first rest hpoly h

theorem rsEncode_kept (calls : List Nat) (data : List Nat) (degree : Nat) :
    (rsEncode (kept calls) data degree).1 =
      data.foldl (encodeStep (generatorOf degree) degree) (List.replicate degree 0) := by
  change data.foldl (encodeStep (rsGenerator (kept calls) degree).1 degree) _ = _
  rw [rsGenerator_kept]

/-- Without error correction the register holds at most the zero that entered last. -/
theorem encode_of_degree_zero (gen data : List Nat) :
    poly (data.foldl (encodeStep gen 0) []) = 0 := by
  have hrem : data.foldl (encodeStep gen 0) [] = [] ∨ data.foldl (encodeStep gen 0) [] = [0] := by
    induction data using List.reverseRecOn with
    | nil => exact Or.inl rfl
    | append_singleton data byte ih =>
      rw [List.foldl_append]
      refine Or.inr ?_
      rcases ih with h | h <;> rw [h] <;> rfl
  rcases hrem with h | h <;> rw [h]
  · exact horner_nil element
  · exact horner_replicate element_zero 1

/-- What was encoded, moved up, and its codewords: divisible by the generator. -/
theorem encode_spec (degree : Nat) {data : List Nat} (hdata : Bytes data) :
    (poly (data.foldl (encodeStep (generatorOf degree) degree)
        (List.replicate degree 0))).degree < degree ∧
      poly (generatorOf degree) ∣ poly data * X ^ degree -
        poly (data.foldl (encodeStep (generatorOf degree) degree) (List.replicate degree 0)) := by
  have hzeros : poly (List.replicate degree 0) = 0 := horner_replicate element_zero degree
  by_cases h0 : degree = 0
  · subst h0
    rw [List.replicate_zero, encode_of_degree_zero, degree_zero, (generatorOf_spec 0).2.2,
      Finset.range_zero, Finset.prod_empty]
    exact ⟨WithBot.bot_lt_coe 0, one_dvd _⟩
  · have hbytes : Bytes (List.replicate degree 0) ∧ (List.replicate degree 0).length = degree := by
      refine ⟨fun c hc => ?_, List.length_replicate⟩
      rw [List.eq_of_mem_replicate hc]
      decide
    have hstart : poly (generatorOf degree) ∣
        0 * X ^ degree - horner element (List.replicate degree 0) := by
      rw [zero_mul, zero_sub, dvd_neg, ← poly, hzeros]
      exact dvd_zero _
    obtain ⟨⟨-, hlength⟩, hdvd⟩ := dvd_of_foldl
      (fun rem => Bytes rem ∧ rem.length = degree) data
      (fun rem p hrem h c hc => by
        obtain ⟨hb, hl, hd⟩ := encodeStep_spec h0 hrem.1 hrem.2 h (hdata c hc)
        exact ⟨⟨hb, hl⟩, hd⟩) hbytes hstart
    refine ⟨?_, ?_⟩
    · have hlt := degree_horner_lt element
        (data.foldl (encodeStep (generatorOf degree) degree) (List.replicate degree 0))
      rwa [hlength] at hlt
    · rwa [zero_mul, zero_add] at hdvd

/-- The numbers below 256 are the elements of GF(256), `gfMul` multiplies in it, and up to the
length of the table of powers the generator is the product of `x - alpha ^ i`, the codewords of
`data` are the remainder of `data * x ^ degree` by it, and both together vanish at every
`alpha ^ i`. -/
theorem rsEncode_isRemainder (calls : List Nat) {degree : Nat} (hdegree : degree ≤ 512)
    {data : List Nat} (hdata : ∀ b ∈ data, b < 256) :
    (Set.BijOn element (Set.Iio 256) Set.univ ∧ ∀ a < 256, ∀ b < 256, ∃ c < 256,
      gfMul (some a) (some b) = some c ∧ element c = element a * element b) ∧
    poly (rsGenerator (kept calls) degree).1 =
      ∏ i ∈ Finset.range degree, (X - C (alpha ^ i)) ∧
    poly (rsEncode (kept calls) data degree).1 =
      (poly data * X ^ degree) %ₘ ∏ i ∈ Finset.range degree, (X - C (alpha ^ i)) ∧
    (∏ i ∈ Finset.range degree, (X - C (alpha ^ i))) ∣
      poly data * X ^ degree + poly (rsEncode (kept calls) data degree).1 ∧
    ∀ i < degree, (poly data * X ^ degree +
      poly (rsEncode (kept calls) data degree).1).eval (alpha ^ i) = 0 := by
  have hgen : poly (generatorOf degree) = ∏ i ∈ Finset.range degree, (X - C (alpha ^ i)) :=
    (generatorOf_spec degree).2.2.trans (prod_factor hdegree)
  obtain ⟨hlt, hdvd⟩ := encode_spec degree hdata
  have hmonic := monic_generatorOf degree
  have hdegreeGen : (poly (generatorOf degree)).degree = degree := by
    rw [degree_eq_natDegree hmonic.ne_zero, natDegree_generatorOf]
  rw [rsGenerator_kept, rsEncode_kept, ← hgen]
  generalize poly (data.foldl (encodeStep (generatorOf degree) degree)
    (List.replicate degree 0)) = rem at hlt hdvd ⊢
  have hsum : poly (generatorOf degree) ∣ poly data * X ^ degree + rem := by
    rwa [← CharTwo.sub_eq_add]
  refine ⟨⟨element_bijOn, fun a ha b hb => ?_⟩, rfl, ?_, hsum, fun i hi => ?_⟩
  · obtain ⟨c, hc⟩ := exists_gfMul ha hb
    obtain ⟨hlt, hprod⟩ := gfMul_spec ha (b := some b) (fun n hn => Option.some.inj hn ▸ hb)
    rw [hc] at hlt hprod
    exact ⟨c, hlt, hc, hprod⟩
  · obtain ⟨q, hq⟩ := hdvd
    refine ((div_modByMonic_unique q rem hmonic ⟨?_, ?_⟩).2).symm
    · rw [← hq]; ring
    · rwa [hdegreeGen]
  · refine eval_eq_zero_of_dvd_of_eval_eq_zero hsum ?_
    rw [hgen, eval_prod]
    refine Finset.prod_eq_zero (Finset.mem_range.2 hi) ?_
    rw [eval_sub, eval_X, eval_C, sub_self]

/-- Five codewords, with the ten that version 1 adds. -/
theorem rsEncode_isRemainder_ten :
    (10 ≤ 512 ∧ ∀ b ∈ [32, 91, 11, 120, 209], b < 256) ∧
      (∏ i ∈ Finset.range 10, (X - C (alpha ^ i))) ∣ poly [32, 91, 11, 120, 209] * X ^ 10 +
        poly (rsEncode (kept [7, 10]) [32, 91, 11, 120, 209] 10).1 :=
  ⟨⟨by decide, by decide⟩,
    (rsEncode_isRemainder [7, 10] (by decide : 10 ≤ 512) (by decide)).2.2.2.1⟩

/-- Past the table a round multiplies by `x`, which no power of alpha is a root of. -/
theorem rsGenerator_past_table :
    poly (rsGenerator (kept []) 513).1 ≠ ∏ i ∈ Finset.range 513, (X - C (alpha ^ i)) := by
  intro h
  have hzero : (poly (rsGenerator (kept []) 513).1).eval 0 = 0 := by
    rw [rsGenerator_kept, (generatorOf_spec 513).2.2, Finset.prod_range_succ,
      factor_eq_zero le_rfl, C_0, add_zero, eval_mul, eval_X, mul_zero]
  have hdomain : IsDomain GF256 := isField_GF256.isDomain
  rw [h, eval_prod, Finset.prod_eq_zero_iff] at hzero
  obtain ⟨i, -, hi⟩ := hzero
  rw [eval_sub, eval_X, eval_C, zero_sub, neg_eq_zero] at hi
  exact (isUnit_alpha.pow i).ne_zero hi

end Konnekt.Qr
