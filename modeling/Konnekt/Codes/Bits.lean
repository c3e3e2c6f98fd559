import Mathlib

/-!
# Fixed-width binary numerals

A number written with a fixed count of bits, the highest first, and read back. Writing a list of
numbers with the same width and reading the bits in groups are inverse to each other.
-/

namespace Konnekt.Codes

/-- The number that the bits stand for, the highest first. -/
def number (bs : List Nat) : Nat := bs.foldl (fun acc b => 2 * acc + b) 0

/-- The low `width` bits of a number, the highest first. -/
def bitsOf (value width : Nat) : List Nat :=
  (List.range width).reverse.map fun i => (value >>> i) &&& 1

/-- A list of numbers, each below two. -/
def Binary (bs : List Nat) : Prop := ∀ b ∈ bs, b < 2

/-! ## One number -/

@[simp] theorem number_concat (bs : List Nat) (b : Nat) :
    number (bs ++ [b]) = 2 * number bs + b := by
  rw [number, List.foldl_append, ← number, List.foldl_cons, List.foldl_nil]

@[simp] theorem length_bitsOf (value width : Nat) : (bitsOf value width).length = width := by
  rw [bitsOf, List.length_map, List.length_reverse, List.length_range]

/-- The last bit is the parity, the bits before it are those of the half. -/
theorem bitsOf_succ (value width : Nat) :
    bitsOf value (width + 1) = bitsOf (value / 2) width ++ [value % 2] := by
  have hshift (i : Nat) : value >>> (i + 1) = (value / 2) >>> i := by
    rw [Nat.add_comm, Nat.shiftRight_add, Nat.shiftRight_one]
  rw [bitsOf, List.range_succ_eq_map, List.reverse_cons, List.map_append, List.map_singleton,
    Nat.shiftRight_zero, Nat.and_one_is_mod, ← List.map_reverse, List.map_map, bitsOf]
  congr 1
  exact List.map_congr_left fun i _ => by rw [Function.comp_apply, Nat.succ_eq_add_one, hshift]

theorem binary_bitsOf (value width : Nat) : Binary (bitsOf value width) := by
  intro b hb
  obtain ⟨i, -, rfl⟩ := List.mem_map.1 hb
  rw [Nat.and_one_is_mod]
  exact Nat.mod_lt _ (by decide)

theorem number_bitsOf {value width : Nat} (h : value < 2 ^ width) :
    number (bitsOf value width) = value := by
  induction width generalizing value with
  | zero => exact (Nat.lt_one_iff.1 h).symm
  | succ width ih =>
    have hhalf : value / 2 < 2 ^ width := by
      rw [pow_succ] at h
      omega
    rw [bitsOf_succ, number_concat, ih hhalf]
    omega

theorem number_lt {bs : List Nat} (h : Binary bs) : number bs < 2 ^ bs.length := by
  induction bs using List.reverseRecOn with
  | nil => decide
  | append_singleton bs b ih =>
    have hb := h b (List.mem_append_right bs List.mem_cons_self)
    have hlt := ih fun c hc => h c (List.mem_append_left [b] hc)
    rw [number_concat, List.length_append, List.length_singleton, pow_succ]
    omega

theorem bitsOf_number {bs : List Nat} (h : Binary bs) : bitsOf (number bs) bs.length = bs := by
  induction bs using List.reverseRecOn with
  | nil => rfl
  | append_singleton bs b ih =>
    have hb := h b (List.mem_append_right bs List.mem_cons_self)
    have hhalf : (2 * number bs + b) / 2 = number bs := by omega
    have hparity : (2 * number bs + b) % 2 = b := by omega
    rw [number_concat, List.length_append, List.length_singleton, bitsOf_succ, hhalf, hparity,
      ih fun c hc => h c (List.mem_append_left [b] hc)]

theorem getElem?_bitsOf {value width i : Nat} (hi : i < width) :
    (bitsOf value width)[i]? = some ((value >>> (width - 1 - i)) &&& 1) := by
  have hlength : i < (List.range width).length := by rwa [List.length_range]
  have hrange : width - 1 - i < width := by omega
  rw [bitsOf, List.getElem?_map, List.getElem?_reverse hlength, List.length_range,
    List.getElem?_range hrange, Option.map_some]

/-! ## Many numbers of one width -/

/-- The bits of the numbers, one after the other. -/
def written (width : Nat) (values : List Nat) : List Nat := values.flatMap (bitsOf · width)

/-- The first `count` numbers of a stream of bits. -/
def readNumbers (width : Nat) : Nat → List Nat → List Nat
  | 0, _ => []
  | count + 1, bits => number (bits.take width) :: readNumbers width count (bits.drop width)

@[simp] theorem written_nil (width : Nat) : written width [] = [] := rfl

@[simp] theorem written_cons (width v : Nat) (values : List Nat) :
    written width (v :: values) = bitsOf v width ++ written width values := rfl

@[simp] theorem written_append (width : Nat) (vs ws : List Nat) :
    written width (vs ++ ws) = written width vs ++ written width ws := List.flatMap_append

@[simp] theorem length_written (width : Nat) (values : List Nat) :
    (written width values).length = width * values.length := by
  induction values with
  | nil => rfl
  | cons v values ih =>
    rw [written_cons, List.length_append, length_bitsOf, ih, List.length_cons, Nat.mul_succ,
      Nat.add_comm]

theorem binary_written (width : Nat) (values : List Nat) : Binary (written width values) := by
  intro b hb
  obtain ⟨v, -, hb⟩ := List.mem_flatMap.1 hb
  exact binary_bitsOf v width b hb

theorem length_readNumbers (width count : Nat) (bits : List Nat) :
    (readNumbers width count bits).length = count := by
  induction count generalizing bits with
  | zero => rfl
  | succ count ih => rw [readNumbers, List.length_cons, ih]

/-- What was written is read back, whatever follows. -/
theorem readNumbers_written {width : Nat} {values : List Nat} (h : ∀ v ∈ values, v < 2 ^ width)
    (rest : List Nat) : readNumbers width values.length (written width values ++ rest) = values := by
  induction values with
  | nil => rfl
  | cons v values ih =>
    have htake : ((bitsOf v width ++ written width values) ++ rest).take width = bitsOf v width := by
      rw [List.append_assoc, List.take_left' (length_bitsOf v width)]
    have hdrop : ((bitsOf v width ++ written width values) ++ rest).drop width =
        written width values ++ rest := by
      rw [List.append_assoc, List.drop_left' (length_bitsOf v width)]
    rw [List.length_cons, readNumbers, written_cons, htake, hdrop,
      number_bitsOf (h v List.mem_cons_self), ih fun w hw => h w (List.mem_cons_of_mem v hw)]

/-- What was read is written back. -/
theorem written_readNumbers {width count : Nat} {bits : List Nat} (h : Binary bits)
    (hlength : bits.length = width * count) :
    written width (readNumbers width count bits) = bits := by
  induction count generalizing bits with
  | zero => exact (List.length_eq_zero_iff.1 hlength).symm
  | succ count ih =>
    rw [Nat.mul_succ] at hlength
    have htake : (bits.take width).length = width := by
      rw [List.length_take]
      omega
    have hfirst : bitsOf (number (bits.take width)) width = bits.take width := by
      have hbits : bitsOf (number (bits.take width)) (bits.take width).length = bits.take width :=
        bitsOf_number fun b hb => h b (List.mem_of_mem_take hb)
      rwa [htake] at hbits
    have hrest : written width (readNumbers width count (bits.drop width)) = bits.drop width := by
      refine ih (fun b hb => h b (List.mem_of_mem_drop hb)) ?_
      rw [List.length_drop]
      omega
    rw [readNumbers, written_cons, hfirst, hrest, List.take_append_drop]

theorem readNumbers_lt {width count : Nat} {bits : List Nat} (h : Binary bits) :
    ∀ v ∈ readNumbers width count bits, v < 2 ^ width := by
  induction count generalizing bits with
  | zero => exact fun v hv => absurd hv (List.not_mem_nil)
  | succ count ih =>
    intro v hv
    rcases List.mem_cons.1 hv with rfl | hv
    · have hlt := number_lt fun b hb => h b (List.mem_of_mem_take (i := width) hb)
      exact hlt.trans_le (Nat.pow_le_pow_right (by decide) (List.length_take_le _ _))
    · exact ih (fun b hb => h b (List.mem_of_mem_drop hb)) v hv

theorem getElem?_written {width : Nat} {values : List Nat} {i : Nat}
    (hi : i < width * values.length) :
    (written width values)[i]? =
      some ((values.getD (i / width) 0 >>> (width - 1 - i % width)) &&& 1) := by
  induction values generalizing i with
  | nil => exact absurd hi (Nat.not_lt_zero i)
  | cons v values ih =>
    by_cases hlt : i < width
    · rw [written_cons, List.getElem?_append_left (by rwa [length_bitsOf]), getElem?_bitsOf hlt,
        Nat.div_eq_of_lt hlt, Nat.mod_eq_of_lt hlt, List.getD_cons_zero]
    · obtain ⟨j, rfl⟩ := Nat.exists_eq_add_of_le (Nat.le_of_not_lt hlt)
      have hpos : 0 < width := by
        rcases Nat.eq_zero_or_pos width with rfl | h
        · rw [Nat.zero_mul] at hi
          exact absurd hi (Nat.not_lt_zero _)
        · exact h
      have hj : j < width * values.length := by
        rw [List.length_cons, Nat.mul_succ] at hi
        omega
      rw [written_cons, List.getElem?_append_right (by rw [length_bitsOf]; omega), length_bitsOf,
        Nat.add_sub_cancel_left, ih hj, Nat.add_div_left j hpos, Nat.add_mod_left,
        List.getD_cons_succ]

end Konnekt.Codes
