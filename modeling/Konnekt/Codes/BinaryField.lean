import Mathlib

/-!
# Numbers as elements of a binary extension

A number stands for the sum of the powers of the root that its bits name. Exclusive or is then
addition and a shift to the left multiplication by the root, for numbers of any size; the numbers
below `2 ^ d` are the elements of an extension of degree `d`, each once. Where the root's powers
repeat no sooner than after `2 ^ d - 1` of them, they are all the elements but zero.
-/

namespace Konnekt.Codes

open Polynomial

section Ring

variable {A : Type*} [CommRing A] (root : A)

/-- The sum of the powers of `root` that the bits of `n` name. -/
def ofBits (n : Nat) : A := (n.bitIndices.map (root ^ ·)).sum

@[simp] theorem ofBits_zero : ofBits root 0 = 0 := rfl

theorem ofBits_one : ofBits root 1 = 1 := by
  simp [ofBits]

/-- The lowest bit, and the root times the others. -/
theorem ofBits_bit (b : Bool) (n : Nat) :
    ofBits root (Nat.bit b n) = (if b then 1 else 0) + root * ofBits root n := by
  have hshift : (n.bitIndices.map fun i => root ^ (i + 1)).sum = root * ofBits root n := by
    rw [ofBits, ← List.sum_map_mul_left]
    simp only [pow_succ']
  cases b with
  | false =>
    rw [ofBits, Nat.bitIndices_bit_false, List.map_map, if_neg Bool.false_ne_true, zero_add]
    exact hshift
  | true =>
    rw [ofBits, Nat.bitIndices_bit_true, List.map_cons, List.map_map, List.sum_cons, pow_zero]
    exact congrArg (1 + ·) hshift

theorem ofBits_shiftLeft (n : Nat) : ofBits root (n <<< 1) = root * ofBits root n := by
  have h := ofBits_bit root false n
  rw [Nat.bit_false_apply] at h
  rw [Nat.shiftLeft_eq, pow_one, mul_comm n 2, h]
  simp

/-- Exclusive or is addition where one and one are zero. -/
theorem ofBits_xor [CharP A 2] (m n : Nat) :
    ofBits root (m ^^^ n) = ofBits root m + ofBits root n := by
  induction m using Nat.binaryRec generalizing n with
  | zero => simp
  | bit b m ih =>
    obtain ⟨c, n, rfl⟩ : ∃ c n', n = Nat.bit c n' := ⟨n.bodd, n.div2, (Nat.bit_bodd_div2 n).symm⟩
    rw [Nat.xor_bit, ofBits_bit, ofBits_bit, ofBits_bit, ih, mul_add]
    have hbits : ((if (b != c) = true then 1 else 0 : A)) =
        (if b = true then 1 else 0) + if c = true then 1 else 0 := by
      cases b <;> cases c <;> simp [CharTwo.add_self_eq_zero]
    rw [hbits]
    ring

theorem map_ofBits {B : Type*} [CommRing B] (f : A →+* B) (n : Nat) :
    f (ofBits root n) = ofBits (f root) n := by
  rw [ofBits, ofBits, map_list_sum, List.map_map]
  exact congrArg List.sum (List.map_congr_left fun i _ => map_pow f root i)

end Ring

/-! ## The extension by the root of a polynomial -/

section Extension

variable {f : (ZMod 2)[X]}

theorem charP_of_degree (hf : f.degree ≠ 0) : CharP (AdjoinRoot f) 2 :=
  haveI := AdjoinRoot.nontrivial f hf
  charP_of_injective_algebraMap (algebraMap (ZMod 2) (AdjoinRoot f)).injective 2

/-- The bits of a number below `2 ^ d` name powers below `d`. -/
theorem degree_ofBits_lt {d n : Nat} (hn : n < 2 ^ d) :
    (ofBits (X : (ZMod 2)[X]) n).degree < d := by
  refine mem_degreeLT.1 (list_sum_mem fun p hp => mem_degreeLT.2 ?_)
  obtain ⟨i, hi, rfl⟩ := List.mem_map.1 hp
  rw [degree_X_pow]
  exact_mod_cast (Nat.pow_lt_pow_iff_right (by decide)).1
    ((Nat.two_pow_le_of_mem_bitIndices hi).trans_lt hn)

theorem ofBits_X_eq_zero {n : Nat} (h : ofBits (X : (ZMod 2)[X]) n = 0) : n = 0 := by
  induction n using Nat.binaryRec with
  | zero => rfl
  | bit b n ih =>
    rw [ofBits_bit] at h
    have hb : b = false := by
      have h0 := congrArg (coeff · 0) h
      cases b with
      | false => rfl
      | true => simp at h0
    subst hb
    rw [if_neg Bool.false_ne_true, zero_add] at h
    rw [ih ((mul_eq_zero.1 h).resolve_left X_ne_zero)]
    rfl

/-- Only zero among the numbers below `2 ^ d` stands for zero in an extension of degree `d`. -/
theorem eq_zero_of_ofBits {n : Nat} (hf : f.Monic) (hn : n < 2 ^ f.natDegree)
    (h : ofBits (AdjoinRoot.root f) n = 0) : n = 0 := by
  have hmk : AdjoinRoot.mk f (ofBits X n) = 0 := by
    rw [map_ofBits, AdjoinRoot.mk_X, h]
  refine ofBits_X_eq_zero (eq_zero_of_dvd_of_degree_lt (AdjoinRoot.mk_eq_zero.1 hmk) ?_)
  rw [degree_eq_natDegree hf.ne_zero]
  exact degree_ofBits_lt hn

theorem natCard_adjoinRoot (hf : f.Monic) : Nat.card (AdjoinRoot f) = 2 ^ f.natDegree := by
  have hcard : Nat.card (ZMod 2) = 2 := by
    rw [Nat.card_eq_fintype_card, ZMod.card]
  rw [Nat.card_congr (AdjoinRoot.powerBasis' hf).basis.equivFun.toEquiv, Nat.card_fun,
    hcard, Nat.card_eq_fintype_card, Fintype.card_fin, AdjoinRoot.powerBasis'_dim]

/-- The numbers below `2 ^ d` are the elements of an extension of degree `d`, each once. -/
theorem ofBits_bijOn [CharP (AdjoinRoot f) 2] (hf : f.Monic) :
    Set.BijOn (ofBits (AdjoinRoot.root f)) (Set.Iio (2 ^ f.natDegree)) Set.univ := by
  have hinj : Set.InjOn (ofBits (AdjoinRoot.root f)) (Set.Iio (2 ^ f.natDegree)) := by
    intro m hm n hn h
    have hsum : ofBits (AdjoinRoot.root f) (m ^^^ n) = 0 := by
      rw [ofBits_xor, h, CharTwo.add_self_eq_zero]
    exact Nat.xor_eq_zero_iff.1 (eq_zero_of_ofBits hf (Nat.xor_lt_two_pow hm hn) hsum)
  have : Finite (AdjoinRoot f) := Nat.finite_of_card_ne_zero
    (by rw [natCard_adjoinRoot hf]; exact (Nat.two_pow_pos _).ne')
  refine ⟨fun n _ => Set.mem_univ _, hinj, ?_⟩
  have himage : (ofBits (AdjoinRoot.root f) '' Set.Iio (2 ^ f.natDegree)) = Set.univ := by
    refine Set.eq_of_subset_of_ncard_le (Set.subset_univ _) ?_ Set.finite_univ
    rw [hinj.ncard_image, Set.ncard_univ, natCard_adjoinRoot hf, Set.ncard_eq_toFinset_card',
      Set.toFinset_Iio, Nat.card_Iio]
  exact himage.ge

theorem isUnit_root (horder : orderOf (AdjoinRoot.root f) = 2 ^ f.natDegree - 1)
    (hd : 0 < f.natDegree) : IsUnit (AdjoinRoot.root f) := by
  refine (orderOf_pos_iff.1 ?_).isUnit
  rw [horder]
  exact Nat.sub_pos_of_lt (Nat.one_lt_two_pow hd.ne')

/-- A root whose powers repeat no sooner than they must has every element but zero among them. -/
theorem exists_pow_eq (hf : f.Monic)
    (horder : orderOf (AdjoinRoot.root f) = 2 ^ f.natDegree - 1) (hd : 0 < f.natDegree)
    {a : AdjoinRoot f} (ha : a ≠ 0) : ∃ j < 2 ^ f.natDegree - 1, AdjoinRoot.root f ^ j = a := by
  have : Finite (AdjoinRoot f) := Nat.finite_of_card_ne_zero
    (by rw [natCard_adjoinRoot hf]; exact (Nat.two_pow_pos _).ne')
  have : Nontrivial (AdjoinRoot f) := ⟨a, 0, ha⟩
  -- so many different powers, none of them zero, leave out nothing else
  have hpowers : (AdjoinRoot.root f ^ ·) '' Set.Iio (2 ^ f.natDegree - 1) = {0}ᶜ := by
    refine Set.eq_of_subset_of_ncard_le ?_ ?_ (Set.toFinite _)
    · rintro _ ⟨j, -, rfl⟩
      exact ((isUnit_root horder hd).pow j).ne_zero
    · have hinj : Set.InjOn (AdjoinRoot.root f ^ ·) (Set.Iio (2 ^ f.natDegree - 1)) := by
        rw [← horder]
        exact pow_injOn_Iio_orderOf
      rw [hinj.ncard_image, Set.ncard_compl, Set.ncard_singleton, natCard_adjoinRoot hf,
        Set.ncard_eq_toFinset_card', Set.toFinset_Iio, Nat.card_Iio]
  obtain ⟨j, hj, rfl⟩ := hpowers.ge ha
  exact ⟨j, hj, rfl⟩

/-- Then every element but zero has an inverse. -/
theorem isField_of_orderOf (hf : f.Monic)
    (horder : orderOf (AdjoinRoot.root f) = 2 ^ f.natDegree - 1) (hd : 0 < f.natDegree) :
    IsField (AdjoinRoot f) := by
  have hdegree : f.degree ≠ 0 := by
    rw [degree_eq_natDegree hf.ne_zero]
    exact_mod_cast hd.ne'
  refine ⟨(AdjoinRoot.nontrivial f hdegree).exists_pair_ne, mul_comm, fun {a} ha => ?_⟩
  obtain ⟨j, -, rfl⟩ := exists_pow_eq hf horder hd ha
  exact ((isUnit_root horder hd).pow j).exists_right_inv

end Extension

end Konnekt.Codes
