import Mathlib.Data.Rat.Floor
import Mathlib.Tactic.Linarith
import Mathlib.Tactic.FieldSimp

/-!
# Numbers of the source language

A `float64` is an exact rational or one of the three special values; rounding is
left out of arithmetic and enters only where a number is printed. Conversions to
`int64` truncate toward zero, with the indefinite integer of the reference
machine outside the representable range.
-/

namespace Go

/-- A floating point value, exact where it is finite. -/
inductive Float64 where
  /-- A finite value. -/
  | fin (q : ℚ)
  /-- An infinity, negative when the flag is set. -/
  | inf (neg : Bool)
  /-- Not a number. -/
  | nan
  deriving DecidableEq, Repr

namespace Float64

instance : OfNat Float64 n := ⟨.fin n⟩
instance : Inhabited Float64 := ⟨.fin 0⟩

/-- A sign bit; zero counts as positive. -/
def signBit : Float64 → Bool
  | fin q => decide (q < 0)
  | inf neg => neg
  | nan => false

def neg : Float64 → Float64
  | fin q => fin (-q)
  | inf n => inf (!n)
  | nan => nan

def add : Float64 → Float64 → Float64
  | nan, _ | _, nan => nan
  | inf a, inf b => if a = b then inf a else nan
  | inf a, fin _ => inf a
  | fin _, inf b => inf b
  | fin p, fin q => fin (p + q)

def sub (a b : Float64) : Float64 := add a (neg b)

def mul : Float64 → Float64 → Float64
  | nan, _ | _, nan => nan
  | fin p, fin q => fin (p * q)
  | a, b => if a = fin 0 ∨ b = fin 0 then nan else inf (a.signBit != b.signBit)

def div : Float64 → Float64 → Float64
  | nan, _ | _, nan => nan
  | inf _, inf _ => nan
  | inf a, b => inf (a != b.signBit)
  | fin _, inf _ => fin 0
  | fin p, fin q =>
    if q = 0 then if p = 0 then nan else inf (decide (p < 0)) else fin (p / q)

/-- Equality of the source language: no value equals a NaN. -/
def eq : Float64 → Float64 → Bool
  | nan, _ | _, nan => false
  | a, b => a == b

/-- The strict order of the source language: comparisons with a NaN are false. -/
def lt : Float64 → Float64 → Bool
  | nan, _ | _, nan => false
  | fin p, fin q => decide (p < q)
  | inf a, inf b => a && !b
  | inf a, fin _ => a
  | fin _, inf b => !b

end Float64

/-! ## Conversion to integers -/

/-- Truncation of a rational toward zero. -/
def truncate (q : ℚ) : Int := q.num.tdiv q.den

def minInt64 : Int := -2 ^ 63
def maxInt64 : Int := 2 ^ 63 - 1

/-- `int64(f)`; out of range and special values give the indefinite integer. -/
def toInt64 : Float64 → Int
  | .fin q =>
    if minInt64 ≤ truncate q ∧ truncate q ≤ maxInt64 then truncate q else minInt64
  | .inf _ | .nan => minInt64

/-- Two's complement wrapping of an exact product or sum to `int64`. -/
def wrapInt64 (n : Int) : Int := (n + 2 ^ 63) % 2 ^ 64 - 2 ^ 63

/-- Truncation reaches zero exactly on the open unit interval around it. -/
theorem truncate_eq_zero_iff (q : ℚ) : truncate q = 0 ↔ |q| < 1 := by
  have hd : (0 : ℚ) < q.den := by exact_mod_cast q.den_pos
  have hq : |q| = (q.num.natAbs : ℚ) / q.den := by
    conv_lhs => rw [← Rat.num_div_den q]
    rw [abs_div, abs_of_pos hd, Nat.cast_natAbs, Int.cast_abs]
  rw [hq, div_lt_one hd, Nat.cast_lt, truncate, ← Int.natAbs_eq_zero, Int.natAbs_tdiv,
    Int.natAbs_natCast]
  exact Nat.div_eq_zero_iff_lt q.den_pos

/-- The conversion of an exact value is zero exactly when the value lies within one of zero. -/
theorem toInt64_fin_eq_zero_iff (q : ℚ) : toInt64 (.fin q) = 0 ↔ |q| < 1 := by
  rw [← truncate_eq_zero_iff, toInt64]
  by_cases h : minInt64 ≤ truncate q ∧ truncate q ≤ maxInt64
  · rw [if_pos h]
  · rw [if_neg h]
    constructor
    · intro hz
      exact absurd hz (by decide)
    · intro hz
      rw [hz] at h
      exact absurd (by decide) h

/-- The special values convert to the indefinite integer, which is not zero. -/
theorem toInt64_ne_zero_of_not_fin {f : Float64} (h : ∀ q, f ≠ .fin q) : toInt64 f ≠ 0 := by
  cases f with
  | fin q => exact absurd rfl (h q)
  | inf _ => simp [toInt64, minInt64]
  | nan => simp [toInt64, minInt64]

end Go
