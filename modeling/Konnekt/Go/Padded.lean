import Mathlib.Data.List.Lex
import Mathlib.Data.Nat.Init
import Mathlib.Data.String.Basic
import Mathlib.Tactic.IntervalCases

/-!
# Numbers of a fixed width

Numbers with zeros before them up to a width, as dates and times are written. Texts of such
numbers, one after the other, sort as the numbers do.
-/

namespace Go

/-- The digits of a number, with zeros before them up to a width. -/
def zeroPadded (width n : Nat) : String :=
  let digits := Nat.toDigits 10 n
  String.ofList (List.replicate (width - digits.length) '0' ++ digits)

/-- A year as `Time.Format` writes it. -/
def formatYear (year : Int) : String :=
  (if year < 0 then "-" else "") ++ zeroPadded 4 year.natAbs

theorem formatYear_of_nonneg {year : Int} (h : 0 ≤ year) :
    formatYear year = zeroPadded 4 year.toNat := by
  rw [formatYear, if_neg (not_lt.2 h), String.empty_append]
  congr 1
  omega

theorem isDigit_of_mem_zeroPadded {width n : Nat} {c : Char}
    (h : c ∈ (zeroPadded width n).toList) : c.isDigit = true := by
  rw [zeroPadded, String.toList_ofList, List.mem_append] at h
  cases h with
  | inl h =>
    rw [List.eq_of_mem_replicate h]
    decide
  | inr h => exact Nat.isDigit_of_mem_toDigits (by decide) (by decide) h

theorem le_length_zeroPadded (width n : Nat) : width ≤ (zeroPadded width n).length := by
  rw [zeroPadded, String.length_ofList, List.length_append, List.length_replicate]
  omega

theorem length_zeroPadded {width n : Nat} (hwidth : 0 < width) (hn : n < 10 ^ width) :
    (zeroPadded width n).toList.length = width := by
  have hdigits : (Nat.toDigits 10 n).length ≤ width :=
    (Nat.length_toDigits_le_iff (by decide) hwidth).2 hn
  rw [zeroPadded, String.toList_ofList, List.length_append, List.length_replicate]
  omega

/-- The last digit of a number that is wider than one digit. -/
theorem zeroPadded_succ {width : Nat} (hwidth : 0 < width) (n : Nat) :
    (zeroPadded (width + 1) n).toList =
      (zeroPadded width (n / 10)).toList ++ [Nat.digitChar (n % 10)] := by
  simp only [zeroPadded, String.toList_ofList]
  by_cases hn : n < 10
  · obtain ⟨w, rfl⟩ := Nat.exists_eq_succ_of_ne_zero hwidth.ne'
    rw [Nat.toDigits_of_lt_base hn, Nat.div_eq_of_lt hn, Nat.mod_eq_of_lt hn, Nat.toDigits_zero]
    simp [List.replicate_succ']
  · rw [Nat.toDigits_of_base_le (by decide) (by omega)]
    simp

theorem digitChar_lt {a b : Nat} (h : a < b) (hb : b < 10) :
    Nat.digitChar a < Nat.digitChar b := by
  interval_cases b <;> interval_cases a <;> decide

/-- What follows two texts of one length does not matter once they differ. -/
theorem append_lt_append {α : Type*} [LT α] {a b : List α} (hlength : a.length = b.length)
    (h : a < b) (x y : List α) : a ++ x < b ++ y := by
  induction h with
  | nil => cases hlength
  | rel h => exact .rel h
  | cons _ ih => exact .cons (ih (Nat.succ_injective hlength))

theorem append_left_le {α : Type*} [LinearOrder α] (a : List α) {x y : List α} (h : x ≤ y) :
    a ++ x ≤ a ++ y := by
  obtain rfl | h := eq_or_lt_of_le h
  · rfl
  · exact (List.append_left_lt h).le

theorem zeroPadded_lt {width n m : Nat} (hwidth : 0 < width) (h : n < m) (hm : m < 10 ^ width) :
    (zeroPadded width n).toList < (zeroPadded width m).toList := by
  induction width, hwidth using Nat.le_induction generalizing n m with
  | base =>
    have hm : m < 10 := hm
    simp only [zeroPadded, String.toList_ofList, Nat.toDigits_of_lt_base hm,
      Nat.toDigits_of_lt_base (h.trans hm)]
    exact .rel (digitChar_lt h hm)
  | succ width hwidth ih =>
    rw [zeroPadded_succ hwidth, zeroPadded_succ hwidth]
    have hm' : m / 10 < 10 ^ width := by
      rw [Nat.pow_succ] at hm
      omega
    by_cases hhigh : n / 10 < m / 10
    · apply append_lt_append _ (ih hhigh hm')
      rw [length_zeroPadded hwidth (hhigh.trans hm'), length_zeroPadded hwidth hm']
    · have heq : n / 10 = m / 10 := by omega
      rw [heq]
      apply List.append_left_lt
      exact .rel (digitChar_lt (by omega) (by omega))

/-- A number and what follows it sort by the number first. -/
theorem zeroPadded_append_le {width n m : Nat} {x y : List Char} {next : Prop} (hwidth : 0 < width)
    (hm : m < 10 ^ width) (h : n < m ∨ n = m ∧ next) (hnext : next → x ≤ y) :
    (zeroPadded width n).toList ++ x ≤ (zeroPadded width m).toList ++ y := by
  obtain h | ⟨rfl, h⟩ := h
  · apply le_of_lt
    apply append_lt_append _ (zeroPadded_lt hwidth h hm)
    rw [length_zeroPadded hwidth (h.trans hm), length_zeroPadded hwidth hm]
  · exact append_left_le _ (hnext h)

end Go
