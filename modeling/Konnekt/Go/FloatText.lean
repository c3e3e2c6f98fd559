import Konnekt.Go.Rounding

/-!
# Reading back printed numbers

The shortest digits of a `float64` are read back as the same `float64`: seventeen
significant digits always do, and fewer are only printed where they do as well.
-/

namespace Go

/-! ## Significant digits -/

section

variable {q : ℚ} {n : Nat}

/-- The first significant digits have the length asked for, up to a carry. -/
theorem significant_spec (hq : 0 < q) (hn : 1 ≤ n) : (significant q n).2 = decimalPoint q - n ∧
    10 ^ (n - 1) ≤ (significant q n).1 ∧ (significant q n).1 ≤ 10 ^ n := by
  obtain ⟨hlow, hhigh⟩ := decimalPoint_spec hq
  have hunit : (0 : ℚ) < 10 ^ (decimalPoint q - n) := zpow_pos (by norm_num) _
  refine ⟨rfl, le_roundEven ?_, roundEven_le (div_nonneg hq.le hunit.le) ?_⟩
  · rw [le_div_iff₀ hunit, Nat.cast_pow, Nat.cast_ofNat, ← zpow_natCast, ← zpow_add₀ (by norm_num)]
    have hexp : ((n - 1 : Nat) : Int) + (decimalPoint q - n) = decimalPoint q - 1 := by omega
    rw [hexp]
    exact hlow
  · rw [div_le_iff₀ hunit, Nat.cast_pow, Nat.cast_ofNat, ← zpow_natCast, ← zpow_add₀ (by norm_num),
      add_sub_cancel]
    exact hhigh.le

/-- The first significant digits are as close as their number says. -/
theorem significant_near (hq : 0 < q) (hn : 1 ≤ n) :
    |((significant q n).1 : ℚ) * 10 ^ (significant q n).2 - q| ≤ q / (2 * 10 ^ (n - 1)) := by
  obtain ⟨hlow, -⟩ := decimalPoint_spec hq
  have hunit : (0 : ℚ) < 10 ^ (decimalPoint q - n) := zpow_pos (by norm_num) _
  have herror := roundEven_sub_le (div_nonneg hq.le hunit.le)
  have hscaled : ((significant q n).1 : ℚ) * 10 ^ (significant q n).2 - q =
      ((roundEven (q / 10 ^ (decimalPoint q - n)) : ℚ) - q / 10 ^ (decimalPoint q - n)) *
        10 ^ (decimalPoint q - n) := by
    rw [sub_mul, div_mul_cancel₀ _ hunit.ne']
    rfl
  have hplace : (10 : ℚ) ^ (decimalPoint q - 1) = 10 ^ (n - 1) * 10 ^ (decimalPoint q - n) := by
    rw [← zpow_natCast, ← zpow_add₀ (by norm_num)]
    congr 1
    omega
  rw [hscaled, abs_mul, abs_of_pos hunit, le_div_iff₀ (by positivity)]
  rw [hplace] at hlow
  have hpow : (0 : ℚ) < 10 ^ (n - 1) := by positivity
  nlinarith [mul_le_mul_of_nonneg_right herror (mul_pos hunit hpow).le]

/-- The digits that are printed for a `float64` are rounded to it again. -/
theorem exists_shortestDecimal (hq : 0 < q) (hexact : nearestFloat q = q) : ∃ n, 1 ≤ n ∧
    shortestDecimal q = Decimal.ofNat (significant q n).1 (significant q n).2 ∧
    nearestFloat ((significant q n).1 * (10 : ℚ) ^ (significant q n).2) = q := by
  unfold shortestDecimal
  dsimp only
  generalize hfind : (List.range' 1 17).find? (fun n => decide (nearestFloat
    ((significant q n).1 * (10 : ℚ) ^ (significant q n).2) = nearestFloat q)) = found
  cases found with
  | none =>
    refine ⟨17, by decide, rfl, ?_⟩
    exact nearestFloat_of_near hq hexact (significant_near hq (by decide))
  | some n =>
    obtain ⟨hreads, hmem, -⟩ := List.find?_range'_eq_some.1 hfind
    refine ⟨n, (List.mem_range'_1.1 hmem).1, rfl, ?_⟩
    rw [of_decide_eq_true hreads, hexact]

end

/-! ## The characters of a number -/

def numeralChars : List Char := "0123456789.e+-".toList

/-- The characters of a printed number are neither spaces nor marks of other notations. -/
theorem numeralChars_plain : ∀ c ∈ numeralChars,
    c ≠ '_' ∧ c ≠ '@' ∧ lower c ≠ 'x' ∧ isSpace c = false := by
  have hall : numeralChars.all (fun c =>
      decide (c ≠ '_' ∧ c ≠ '@' ∧ lower c ≠ 'x' ∧ isSpace c = false)) = true := by
    decide
  exact fun c hc => of_decide_eq_true (List.all_eq_true.1 hall c hc)

/-- The number that digits write, the highest first. -/
def digitsValue (ds : List Nat) : Nat := Nat.ofDigits 10 ds.reverse

@[simp]
theorem digitsValue_nil : digitsValue [] = 0 := rfl

@[simp]
theorem digitsValue_singleton (d : Nat) : digitsValue [d] = d := Nat.ofDigits_singleton

theorem digitsValue_append (ds es : List Nat) :
    digitsValue (ds ++ es) = digitsValue ds * 10 ^ es.length + digitsValue es := by
  rw [digitsValue, List.reverse_append, Nat.ofDigits_append, List.length_reverse, Nat.add_comm,
    Nat.mul_comm]
  rfl

theorem digitsValue_cons (d : Nat) (ds : List Nat) :
    digitsValue (d :: ds) = d * 10 ^ ds.length + digitsValue ds := by
  rw [← List.singleton_append, digitsValue_append, digitsValue_singleton]

section

variable {d : Nat}

theorem digitChar_mem (hd : d < 10) : digitChar d ∈ numeralChars := by
  interval_cases d <;> decide

theorem digitVal_digitChar (hd : d < 10) : digitVal (digitChar d) = some d := by
  interval_cases d <;> decide

/-- A digit starts neither a special value nor a sign. -/
theorem digitChar_ne (hd : d < 10) : digitChar d ≠ '.' ∧ digitChar d ≠ '+' ∧ digitChar d ≠ '-' ∧
    digitChar d ≠ 'i' ∧ digitChar d ≠ 'n' ∧ lower (digitChar d) = digitChar d := by
  interval_cases d <;> decide

end

/-- Without another notation's mark there is no base prefix. -/
theorem stripHexPrefix_of_plain {s : List Char} (h : ∀ c ∈ s, lower c ≠ 'x') :
    stripHexPrefix s = (false, s) := by
  unfold stripHexPrefix
  split
  · rename_i x c cs
    exact if_neg (h x (by simp))
  · rfl

/-- The digits of a mantissa are read as one integer. -/
theorem scanMantissa_digits (ds : List Nat) (hds : ∀ d ∈ ds, d < 10) (m : Mantissa)
    (rest : List Char) : scanMantissa false m (ds.map digitChar ++ rest) =
      scanMantissa false { m with
        value := m.value * 10 ^ ds.length + digitsValue ds
        frac := if m.sawDot then m.frac + ds.length else m.frac
        sawDigits := m.sawDigits || !ds.isEmpty } rest := by
  induction ds generalizing m with
  | nil => simp
  | cons d ds ih =>
    have hd := hds d List.mem_cons_self
    have hplain := numeralChars_plain _ (digitChar_mem hd)
    rw [List.map_cons, List.cons_append, scanMantissa, if_neg hplain.1,
      if_neg (digitChar_ne hd).1]
    simp only [mantissaDigit, digitVal_digitChar hd, Bool.false_eq_true, if_false]
    rw [ih fun e he => hds e (List.mem_cons_of_mem _ he)]
    congr 1
    simp only [Mantissa.mk.injEq, List.length_cons, digitsValue_cons, List.isEmpty_cons,
      Bool.not_false, Bool.or_true, Bool.true_or, and_true]
    refine ⟨by ring, ?_⟩
    split_ifs <;> omega

/-- The digits of an exponent are read exactly while there are at most five of them. -/
theorem scanExponent_digits (ds : List Nat) (hds : ∀ d ∈ ds, d < 10) (e : Nat)
    (hbound : e * 10 ^ ds.length + digitsValue ds < 100000) :
    scanExponent e (ds.map digitChar) = (e * 10 ^ ds.length + digitsValue ds, []) := by
  induction ds generalizing e with
  | nil => simp [scanExponent]
  | cons d ds ih =>
    have hd := hds d List.mem_cons_self
    have hplain := numeralChars_plain _ (digitChar_mem hd)
    have hstep : e * 10 ^ (d :: ds).length + digitsValue (d :: ds) =
        (e * 10 + d) * 10 ^ ds.length + digitsValue ds := by
      rw [List.length_cons, digitsValue_cons]
      ring
    rw [hstep] at hbound ⊢
    have hsmall : e < 10000 := by
      have hmul : e * 10 + d ≤ (e * 10 + d) * 10 ^ ds.length :=
        Nat.le_mul_of_pos_right _ (by positivity)
      omega
    rw [List.map_cons, scanExponent, if_neg hplain.1]
    simp only [digitVal_digitChar hd, if_pos hsmall]
    exact ih (fun e he => hds e (List.mem_cons_of_mem _ he)) _ hbound

/-! ## Reading a printed number -/

/-- The digits before and after the point; without the latter there is no point. -/
def mantissaText (whole decimals : List Nat) : List Char :=
  whole.map digitChar ++ if decimals = [] then [] else '.' :: decimals.map digitChar

/-- What may follow a mantissa: an exponent that reads as `e`, or nothing. -/
structure ExponentText (rest : List Char) (e : Int) : Prop where
  plain : ∀ c ∈ rest, c ∈ numeralChars
  stops : ∀ m, scanMantissa false m rest = (m, rest)
  reads : readExponent false rest = some (e, [])

theorem exponentText_nil : ExponentText [] 0 where
  plain := by simp
  stops _ := rfl
  reads := rfl

theorem exponentText_digits (neg : Bool) {ds : List Nat} (hne : ds ≠ []) (hds : ∀ d ∈ ds, d < 10)
    (hbound : digitsValue ds < 100000) :
    ExponentText ('e' :: (if neg then '-' else '+') :: ds.map digitChar)
      ((if neg then -1 else 1) * digitsValue ds) := by
  have hscan := scanExponent_digits ds hds 0 (by simpa using hbound)
  rw [zero_mul, zero_add] at hscan
  have hexp : lower 'e' = 'e' := by decide
  cases ds with
  | nil => exact absurd rfl hne
  | cons d ds =>
    have hhead := digitVal_digitChar (hds d List.mem_cons_self)
    refine ⟨?_, fun m => ?_, ?_⟩
    · intro c hc
      have hdigits : ∀ c ∈ (d :: ds).map digitChar, c ∈ numeralChars := by
        intro c hc
        obtain ⟨d, hd, rfl⟩ := List.mem_map.1 hc
        exact digitChar_mem (hds d hd)
      rw [List.mem_cons, List.mem_cons] at hc
      obtain rfl | rfl | hc := hc
      · decide
      · cases neg <;> decide
      · exact hdigits c hc
    · rw [scanMantissa, if_neg (by decide), if_neg (by decide)]
      rfl
    · rw [List.map_cons] at hscan ⊢
      generalize digitsValue (d :: ds) = n at hscan
      cases neg <;> simp [readExponent, hexp, hhead, hscan]

section

variable {whole decimals : List Nat} {rest : List Char} {e : Int}

theorem mantissaText_plain (hw : ∀ d ∈ whole, d < 10) (hd : ∀ d ∈ decimals, d < 10) :
    ∀ c ∈ mantissaText whole decimals, c ∈ numeralChars := by
  have hdigits : ∀ ds : List Nat, (∀ d ∈ ds, d < 10) → ∀ c ∈ ds.map digitChar, c ∈ numeralChars := by
    intro ds hds c hc
    obtain ⟨d, hd, rfl⟩ := List.mem_map.1 hc
    exact digitChar_mem (hds d hd)
  intro c hc
  rw [mantissaText, List.mem_append] at hc
  cases hc with
  | inl hc => exact hdigits whole hw c hc
  | inr hc =>
    split at hc
    · cases hc
    · rw [List.mem_cons] at hc
      obtain rfl | hc := hc
      · decide
      · exact hdigits decimals hd c hc

/-- The mantissa reads as all its digits, with the decimals counted. -/
theorem scanMantissa_text (hne : whole ≠ []) (hw : ∀ d ∈ whole, d < 10)
    (hd : ∀ d ∈ decimals, d < 10) (hrest : ExponentText rest e) :
    ∃ m, scanMantissa false {} (mantissaText whole decimals ++ rest) = (m, rest) ∧
      m.sawDigits = true ∧ m.frac = decimals.length ∧
      m.value = digitsValue (whole ++ decimals) := by
  have hempty : whole.isEmpty = false := by simpa using hne
  rw [mantissaText, List.append_assoc, scanMantissa_digits whole hw]
  by_cases hdec : decimals = []
  · rw [if_pos hdec, List.nil_append, hrest.stops]
    exact ⟨_, rfl, by simp [hempty], by simp [hdec], by simp [hdec]⟩
  · rw [if_neg hdec, List.cons_append, scanMantissa, if_neg (by decide), if_pos rfl]
    simp only [Bool.false_eq_true, if_false]
    rw [scanMantissa_digits decimals hd, hrest.stops]
    refine ⟨_, rfl, by simp [hempty], by simp, ?_⟩
    rw [digitsValue_append, zero_mul, zero_add]

/-- A printed number starts with a digit. -/
theorem exists_mantissaText_cons (hne : whole ≠ []) (hw : ∀ d ∈ whole, d < 10)
    (decimals : List Nat) (rest : List Char) :
    ∃ d cs, d < 10 ∧ mantissaText whole decimals ++ rest = digitChar d :: cs := by
  cases whole with
  | nil => exact absurd rfl hne
  | cons d whole => exact ⟨d, _, hw d List.mem_cons_self, rfl⟩

theorem stripSign_text (neg : Bool) (hne : whole ≠ []) (hw : ∀ d ∈ whole, d < 10)
    (decimals : List Nat) (rest : List Char) :
    stripSign ((if neg then ['-'] else []) ++ (mantissaText whole decimals ++ rest)) =
      (neg, mantissaText whole decimals ++ rest) := by
  obtain ⟨d, cs, hd, heq⟩ := exists_mantissaText_cons hne hw decimals rest
  rw [heq]
  cases neg with
  | true => rfl
  | false =>
    unfold stripSign
    split
    · rename_i hcons
      exact absurd (List.cons.inj hcons).1 (digitChar_ne hd).2.1
    · rename_i hcons
      exact absurd (List.cons.inj hcons).1 (digitChar_ne hd).2.2.1
    · rfl

/-- A printed number reads as its digits, scaled by the exponent. -/
theorem readFloat_text (neg : Bool) (hne : whole ≠ []) (hw : ∀ d ∈ whole, d < 10)
    (hd : ∀ d ∈ decimals, d < 10) (hrest : ExponentText rest e) :
    readFloat ((if neg then ['-'] else []) ++ (mantissaText whole decimals ++ rest)) =
      some ((if neg then -1 else 1) *
        (digitsValue (whole ++ decimals) * (10 : ℚ) ^ (e - decimals.length))) := by
  have hplain : ∀ c ∈ mantissaText whole decimals ++ rest, c ∈ numeralChars := by
    intro c hc
    rw [List.mem_append] at hc
    exact hc.elim (mantissaText_plain hw hd c) (hrest.plain c)
  obtain ⟨m, hscan, hsaw, hfrac, hvalue⟩ := scanMantissa_text hne hw hd hrest
  have hnone : (mantissaText whole decimals ++ rest).contains '_' = false := by
    rw [List.contains_eq_mem, decide_eq_false_iff_not]
    exact fun hmem => (numeralChars_plain _ (hplain _ hmem)).1 rfl
  simp only [readFloat, stripSign_text neg hne hw,
    stripHexPrefix_of_plain fun c hc => (numeralChars_plain c (hplain c hc)).2.2.1, hscan, hsaw,
    hrest.reads, hnone, hfrac, hvalue, Bool.not_true, Bool.false_eq_true, if_false, Bool.false_and]
  cases neg <;> simp

/-- A text that starts with a digit is no special value. -/
theorem readSpecial_text (neg : Bool) (hne : whole ≠ []) (hw : ∀ d ∈ whole, d < 10) :
    readSpecial ((if neg then ['-'] else []) ++ (mantissaText whole decimals ++ rest)) = none := by
  have hstrip := stripSign_text neg hne hw decimals rest
  obtain ⟨d, cs, hd, heq⟩ := exists_mantissaText_cons hne hw decimals rest
  obtain ⟨-, -, -, hi, hn, hlower⟩ := digitChar_ne hd
  -- a word is told apart by its first letter
  have hword : ∀ (c : Char) (w : List Char) (s : String), s.toList = c :: w → digitChar d ≠ c →
      String.ofList ((digitChar d :: cs).map lower) ≠ s := by
    intro c w s hs hne heq
    rw [← heq, String.toList_ofList, List.map_cons, hlower] at hs
    exact hne (List.cons.inj hs).1
  have hnan : String.ofList
      (((if neg then ['-'] else []) ++ (digitChar d :: cs)).map lower) ≠ "nan" := by
    cases neg with
    | true =>
      intro heq
      have hlist := congrArg (fun s => s.toList.head?) heq
      rw [String.toList_ofList] at hlist
      have hminus : lower '-' = 'n' := Option.some.inj hlist
      exact absurd hminus (by decide)
    | false => exact hword 'n' _ "nan" rfl hn
  rw [heq] at hstrip ⊢
  simp only [readSpecial, hstrip]
  rw [if_neg, if_neg hnan]
  rintro (h | h)
  · exact hword 'i' _ "inf" rfl hi h
  · exact hword 'i' _ "infinity" rfl hi h

/-- The value of a printed number, while it is in range. -/
theorem parseFloat_text (neg : Bool) (hne : whole ≠ []) (hw : ∀ d ∈ whole, d < 10)
    (hd : ∀ d ∈ decimals, d < 10) (hrest : ExponentText rest e)
    (hrange : (digitsValue (whole ++ decimals) : ℚ) * 10 ^ (e - decimals.length) < float64Limit) :
    parseFloat (String.ofList
        ((if neg then ['-'] else []) ++ (mantissaText whole decimals ++ rest))) =
      .ok (.fin ((if neg then -1 else 1) *
        (digitsValue (whole ++ decimals) * (10 : ℚ) ^ (e - decimals.length)))) := by
  have hnonneg : (0 : ℚ) ≤ digitsValue (whole ++ decimals) * 10 ^ (e - decimals.length) :=
    mul_nonneg (Nat.cast_nonneg _) (zpow_nonneg (by norm_num) _)
  have habs : |(if neg then -1 else 1) * ((digitsValue (whole ++ decimals) : ℚ) *
      10 ^ (e - decimals.length))| < float64Limit := by
    have hsign : |(if neg then -1 else 1 : ℚ)| = 1 := by cases neg <;> simp
    rw [abs_mul, hsign, one_mul, abs_of_nonneg hnonneg]
    exact hrange
  simp only [parseFloat, String.toList_ofList, readSpecial_text neg hne hw,
    readFloat_text neg hne hw hd hrest, if_pos habs]

end

/-! ## The layouts -/

namespace Decimal

/-- The value that digits and point stand for. -/
def value (d : Decimal) : ℚ := digitsValue d.digits * 10 ^ (d.point - d.digits.length)

/-- There are digits to print. -/
structure Printable (d : Decimal) : Prop where
  ne_nil : d.digits ≠ []
  digit : ∀ n ∈ d.digits, n < 10

theorem ofNat_printable {c : Nat} (hc : 0 < c) (scale : Int) : (ofNat c scale).Printable where
  ne_nil := by
    -- the leading digit is not among the zeros that are cut off
    intro h
    have hzeros : ∀ d ∈ Nat.digits 10 c, d = 0 := by
      simpa [ofNat, List.dropWhile_eq_nil_iff] using h
    have hne : Nat.digits 10 c ≠ [] := Nat.digits_ne_nil_iff_ne_zero.2 hc.ne'
    exact Nat.getLast_digit_ne_zero 10 hc.ne' (hzeros _ (List.getLast_mem hne))
  digit n hn := by
    simp only [ofNat, List.reverse_reverse, List.mem_reverse] at hn
    exact Nat.digits_lt_base (by decide) ((List.dropWhile_suffix _).subset hn)

theorem value_ofNat (c : Nat) (scale : Int) : (ofNat c scale).value = c * 10 ^ scale := by
  simp only [value, ofNat, digitsValue, List.length_reverse, List.reverse_reverse]
  obtain ⟨k, hk⟩ : ∃ k, (Nat.digits 10 c).takeWhile (· = 0) = List.replicate k 0 :=
    ⟨_, List.eq_replicate_iff.2 ⟨rfl, fun d hd => by simpa using List.mem_takeWhile_imp hd⟩⟩
  have hsplit : Nat.digits 10 c =
      List.replicate k 0 ++ (Nat.digits 10 c).dropWhile (· = 0) := by
    rw [← hk, List.takeWhile_append_dropWhile]
  have hlen := congrArg List.length hsplit
  rw [List.length_append, List.length_replicate] at hlen
  have hvalue : c = 10 ^ k * Nat.ofDigits 10 ((Nat.digits 10 c).dropWhile (· = 0)) := by
    conv_lhs => rw [← Nat.ofDigits_digits 10 c, hsplit]
    rw [Nat.ofDigits_append, List.length_replicate, Nat.ofDigits_replicate_zero, Nat.zero_add]
  rw [hlen]
  conv_rhs => rw [hvalue]
  push_cast
  rw [mul_comm ((10 : ℚ) ^ k), mul_assoc, ← zpow_natCast (10 : ℚ) k, ← zpow_add₀ (by norm_num)]
  congr 2
  ring

end Decimal

/-- The decimal text of a whole number is its digits. -/
theorem exists_natText (n : Nat) : ∃ ds, ds ≠ [] ∧ (∀ d ∈ ds, d < 10) ∧
    (toString n).toList = ds.map digitChar ∧ digitsValue ds = n := by
  rcases Nat.eq_zero_or_pos n with rfl | hpos
  · exact ⟨[0], by simp, by simp, by decide, rfl⟩
  · refine ⟨(Nat.digits 10 n).reverse, ?_, ?_, ?_, ?_⟩
    · intro hnil
      exact Nat.digits_ne_nil_iff_ne_zero.2 hpos.ne' (List.reverse_eq_nil_iff.1 hnil)
    · intro d hd
      exact Nat.digits_lt_base (by decide) (List.mem_reverse.1 hd)
    · rw [← toDigits_eq_digits hpos]
      exact Nat.toList_repr
    · rw [digitsValue, List.reverse_reverse, Nat.ofDigits_digits]

theorem digitsValue_replicate_zero (k : Nat) : digitsValue (List.replicate k 0) = 0 := by
  rw [digitsValue, List.reverse_replicate, Nat.ofDigits_replicate_zero]

section

variable {d : Decimal}

/-- The `%f` layout is a mantissa alone. -/
theorem exists_layoutF (hd : d.Printable) : ∃ whole decimals, whole ≠ [] ∧
    (∀ n ∈ whole, n < 10) ∧ (∀ n ∈ decimals, n < 10) ∧ layoutF d = mantissaText whole decimals ∧
    (digitsValue (whole ++ decimals) : ℚ) * 10 ^ ((0 : Int) - decimals.length) = d.value := by
  have hzero : digitChar 0 = '0' := by decide
  have hzeros : ∀ k, ∀ n ∈ List.replicate k 0, n < 10 := by
    intro k n hn
    rw [List.eq_of_mem_replicate hn]
    decide
  have hlen : 0 < d.digits.length := List.length_pos_iff.2 hd.ne_nil
  rcases lt_or_ge 0 d.point with hpos | hnonpos
  · rcases lt_or_ge d.point d.digits.length with hinside | hbeyond
    · refine ⟨d.digits.take d.point.toNat, d.digits.drop d.point.toNat, ?_,
        fun n hn => hd.digit n (List.mem_of_mem_take hn),
        fun n hn => hd.digit n (List.mem_of_mem_drop hn), ?_, ?_⟩
      · rw [← List.length_pos_iff, List.length_take]
        omega
      · have hdrop : d.digits.drop d.point.toNat ≠ [] := by
          rw [← List.length_pos_iff, List.length_drop]
          omega
        have htail : d.point.toNat - d.digits.length = 0 := by omega
        have hlead : (-d.point).toNat = 0 := by omega
        simp [layoutF, mantissaText, hpos, hinside, hdrop, htail, hlead]
      · rw [List.take_append_drop, Decimal.value, List.length_drop]
        congr 2
        omega
    · refine ⟨d.digits ++ List.replicate (d.point.toNat - d.digits.length) 0, [], ?_, ?_, by simp,
        ?_, ?_⟩
      · exact List.append_ne_nil_of_left_ne_nil hd.ne_nil _
      · intro n hn
        rw [List.mem_append] at hn
        exact hn.elim (hd.digit n) (hzeros _ n)
      · have htake : d.digits.take d.point.toNat = d.digits :=
          List.take_of_length_le (by omega)
        simp [layoutF, mantissaText, hpos, not_lt.2 hbeyond, htake, hzero]
      · rw [List.append_nil, digitsValue_append, digitsValue_replicate_zero, List.length_replicate,
          Decimal.value]
        push_cast
        rw [add_zero, List.length_nil, Nat.cast_zero, sub_zero, zpow_zero, mul_one,
          ← zpow_natCast]
        congr 2
        omega
  · refine ⟨[0], List.replicate (-d.point).toNat 0 ++ d.digits, by simp, by simp, ?_, ?_, ?_⟩
    · intro n hn
      rw [List.mem_append] at hn
      exact hn.elim (hzeros _ n) (hd.digit n)
    · have hpoint : d.point.toNat = 0 := by omega
      have hinside : d.point < d.digits.length := by omega
      simp [layoutF, mantissaText, not_lt.2 hnonpos, hinside, hpoint, hzero, hd.ne_nil]
    · rw [List.singleton_append, digitsValue_cons, digitsValue_append, digitsValue_replicate_zero,
        List.length_append, List.length_replicate, Decimal.value, Nat.zero_mul, Nat.zero_mul,
        Nat.zero_add, Nat.zero_add]
      congr 2
      push_cast
      omega

/-- The `%e` layout is a mantissa of one whole digit and an exponent. -/
theorem exists_layoutE (hd : d.Printable) (hlow : -10000 < d.point) (hhigh : d.point < 10000) :
    ∃ whole decimals rest e, whole ≠ [] ∧ (∀ n ∈ whole, n < 10) ∧ (∀ n ∈ decimals, n < 10) ∧
      ExponentText rest e ∧ layoutE d = mantissaText whole decimals ++ rest ∧
      (digitsValue (whole ++ decimals) : ℚ) * 10 ^ (e - decimals.length) = d.value := by
  obtain ⟨ds, point⟩ := d
  cases ds with
  | nil => exact absurd rfl hd.ne_nil
  | cons a ds =>
    dsimp only at hlow hhigh
    have hzero : digitChar 0 = '0' := by decide
    obtain ⟨es, hne, hes, htext, hvalue⟩ := exists_natText (point - 1).natAbs
    -- an exponent of one digit is padded to two
    obtain ⟨ps, hpne, hps, hptext, hpvalue⟩ : ∃ ps, ps ≠ [] ∧ (∀ d ∈ ps, d < 10) ∧
        (if (toString (point - 1).natAbs).toList.length < 2 then
          '0' :: (toString (point - 1).natAbs).toList
          else (toString (point - 1).natAbs).toList) = ps.map digitChar ∧
        digitsValue ps = (point - 1).natAbs := by
      rw [htext]
      split_ifs
      · refine ⟨0 :: es, by simp, ?_, by rw [List.map_cons, hzero], ?_⟩
        · simpa using hes
        · rw [digitsValue_cons, Nat.zero_mul, Nat.zero_add, hvalue]
      · exact ⟨es, hne, hes, rfl, hvalue⟩
    refine ⟨[a], ds, _, _, by simp, ?_, ?_, exponentText_digits (decide (point - 1 < 0))
      hpne hps (by rw [hpvalue]; omega), ?_, ?_⟩
    · intro n hn
      rw [List.mem_singleton.1 hn]
      exact hd.digit a List.mem_cons_self
    · exact fun n hn => hd.digit n (List.mem_cons_of_mem _ hn)
    · rw [← hptext]
      cases ds <;> simp [layoutE, mantissaText]
    · rw [List.singleton_append, Decimal.value, hpvalue, List.length_cons]
      congr 2
      by_cases hneg : point - 1 < 0
      · simp only [hneg, decide_true, if_true]
        rw [Nat.cast_add, Nat.cast_one]
        omega
      · simp only [hneg, decide_false, Bool.false_eq_true, if_false]
        rw [Nat.cast_add, Nat.cast_one]
        omega

end

/-! ## Reading back -/

/-- The `float64` a value is rounded to. -/
def rounded (q : ℚ) : ℚ := if q < 0 then -nearestFloat (-q) else nearestFloat q

/-- A value that a finite `float64` has. -/
def IsFloat64 (q : ℚ) : Prop := nearestFloat |q| = |q| ∧ |q| < 2 ^ (1024 : Int)

/-- A text of a number's characters that reads as the value `r`. -/
structure Numeral (s : String) (r : ℚ) : Prop where
  plain : ∀ c ∈ s.toList, c ∈ numeralChars
  reads : parseFloat s = .ok (.fin r)

/-- The digits of a positive `float64`. -/
theorem shortestDecimal_spec {q : ℚ} (hq : 0 < q) (hexact : nearestFloat q = q)
    (hlt : q < 2 ^ (1024 : Int)) : (shortestDecimal q).Printable ∧
      -10000 < (shortestDecimal q).point ∧ (shortestDecimal q).point < 10000 ∧
      nearestFloat (shortestDecimal q).value = q ∧ (shortestDecimal q).value < float64Limit ∧
      0 < (shortestDecimal q).value := by
  obtain ⟨n, hn, hshortest, hreads⟩ := exists_shortestDecimal hq hexact
  obtain ⟨hscale, hlow, hhigh⟩ := significant_spec hq hn
  have hc : 0 < (significant q n).1 := lt_of_lt_of_le (by positivity) hlow
  -- the places of the value bound those of its digits
  obtain ⟨hplaceLow, hplaceHigh⟩ := decimalPoint_spec hq
  have htop : decimalPoint q - 1 < 1024 := by
    have hbase : (2 : ℚ) ^ (1024 : Int) ≤ 10 ^ (1024 : Int) :=
      zpow_le_zpow_left₀ (by norm_num) (by norm_num) (by norm_num)
    exact (zpow_lt_zpow_iff_right₀ (by norm_num : (1 : ℚ) < 10)).1
      (lt_of_lt_of_le (lt_of_le_of_lt hplaceLow hlt) hbase)
  have hbottom : -1074 < decimalPoint q := by
    obtain ⟨m, hvalue, -, -⟩ := exists_mantissa hq hexact
    have hunit : (0 : ℚ) < 2 ^ lastPlace q := zpow_pos (by norm_num) _
    have hm : 1 ≤ m := by
      rcases Nat.eq_zero_or_pos m with rfl | hpos
      · rw [Nat.cast_zero, zero_mul] at hvalue
        exact absurd hvalue hq.ne'
      · exact hpos
    have hlast : (2 : ℚ) ^ (-1074 : Int) ≤ 2 ^ lastPlace q :=
      zpow_le_zpow_right₀ (by norm_num) (le_max_right _ _)
    have hmul : (2 : ℚ) ^ lastPlace q ≤ m * 2 ^ lastPlace q :=
      le_mul_of_one_le_left hunit.le (by exact_mod_cast hm)
    have hbase : (10 : ℚ) ^ (-1074 : Int) ≤ 2 ^ (-1074 : Int) := by
      rw [zpow_neg, zpow_neg]
      apply inv_anti₀ (zpow_pos (by norm_num) _)
      exact zpow_le_zpow_left₀ (by norm_num) (by norm_num) (by norm_num)
    exact (zpow_lt_zpow_iff_right₀ (by norm_num : (1 : ℚ) < 10)).1
      (lt_of_le_of_lt ((hbase.trans hlast).trans (hmul.trans_eq hvalue.symm)) hplaceHigh)
  have hpoint : decimalPoint q ≤ (shortestDecimal q).point ∧
      (shortestDecimal q).point ≤ decimalPoint q + 1 := by
    have hlen := (Nat.lt_digits_length_iff (by decide : 1 < 10) _).2 hlow
    have hlen' : (Nat.digits 10 (significant q n).1).length ≤ n + 1 := by
      apply (Nat.digits_length_le_iff (by decide) _).2
      exact lt_of_le_of_lt hhigh (Nat.pow_lt_pow_right (by decide) (by omega))
    rw [hshortest]
    simp only [Decimal.ofNat, List.length_reverse, hscale]
    omega
  rw [hshortest] at hpoint ⊢
  rw [Decimal.value_ofNat]
  refine ⟨Decimal.ofNat_printable hc _, by omega, by omega, hreads, ?_, ?_⟩
  · by_contra hge
    have hpast := le_nearestFloat_of_limit (not_lt.1 hge)
    rw [hreads] at hpast
    exact absurd hlt (not_lt.2 hpast)
  · exact mul_pos (by exact_mod_cast hc) (zpow_pos (by norm_num) _)

/-- A layout of the digits of a finite `float64` reads back as it. -/
theorem exists_numeral_signed {q : ℚ} (hfloat : IsFloat64 q) (hq : q ≠ 0) {cs : List Char}
    {whole decimals : List Nat} {rest : List Char} {e : Int} (hne : whole ≠ [])
    (hw : ∀ n ∈ whole, n < 10) (hd : ∀ n ∈ decimals, n < 10) (hrest : ExponentText rest e)
    (hcs : cs = mantissaText whole decimals ++ rest)
    (hvalue : (digitsValue (whole ++ decimals) : ℚ) * 10 ^ (e - decimals.length) =
      (decimalOf q).value) : ∃ r, Numeral (signed q cs) r ∧ rounded r = q := by
  obtain ⟨-, -, -, hreads, hlimit, hpos⟩ :=
    shortestDecimal_spec (abs_pos.2 hq) hfloat.1 hfloat.2
  rw [decimalOf, if_neg hq] at hvalue
  have htext : signed q cs = String.ofList ((if decide (q < 0) then ['-'] else []) ++
      (mantissaText whole decimals ++ rest)) := by
    rw [signed, hcs]
    by_cases hneg : q < 0 <;> simp [hneg]
  have hparse := parseFloat_text (decide (q < 0)) hne hw hd hrest (by rw [hvalue]; exact hlimit)
  rw [← htext, hvalue] at hparse
  refine ⟨_, ⟨?_, hparse⟩, ?_⟩
  · intro c hc
    rw [htext, String.toList_ofList, List.mem_append, List.mem_append] at hc
    obtain hc | hc | hc := hc
    · by_cases hneg : q < 0
      · rw [if_pos (decide_eq_true hneg), List.mem_singleton] at hc
        subst hc
        decide
      · rw [if_neg (by simpa using hneg)] at hc
        cases hc
    · exact mantissaText_plain hw hd c hc
    · exact hrest.plain c hc
  · by_cases hneg : q < 0
    · rw [decide_eq_true hneg, if_pos rfl, neg_one_mul, rounded, if_pos (by linarith), neg_neg,
        hreads, abs_of_neg hneg, neg_neg]
    · rw [decide_eq_false hneg, if_neg (by decide), one_mul, rounded, if_neg (by linarith), hreads,
        abs_of_nonneg (not_lt.1 hneg)]

theorem numeral_zero : Numeral (formatF (.fin 0)) 0 ∧ Numeral (formatG (.fin 0)) 0 ∧
    rounded 0 = 0 := by
  have htext : formatF (.fin 0) = "0" ∧ formatG (.fin 0) = "0" := by decide
  have hplain : ∀ c ∈ "0".toList, c ∈ numeralChars := by
    intro c hc
    obtain rfl : c = '0' := by simpa using hc
    decide
  have hnumeral : Numeral "0" 0 := ⟨hplain, by decide +kernel⟩
  rw [htext.1, htext.2]
  exact ⟨hnumeral, hnumeral, by decide +kernel⟩

/-- The `%f` text of a finite `float64` reads back as it. -/
theorem exists_numeral_formatF {q : ℚ} (hfloat : IsFloat64 q) :
    ∃ r, Numeral (formatF (.fin q)) r ∧ rounded r = q := by
  by_cases hq : q = 0
  · rw [hq]
    exact ⟨0, numeral_zero.1, numeral_zero.2.2⟩
  · obtain ⟨hprintable, -⟩ := shortestDecimal_spec (abs_pos.2 hq) hfloat.1 hfloat.2
    have hdecimal : decimalOf q = shortestDecimal |q| := if_neg hq
    rw [← hdecimal] at hprintable
    obtain ⟨whole, decimals, hne, hw, hd, htext, hvalue⟩ := exists_layoutF hprintable
    exact exists_numeral_signed hfloat hq hne hw hd exponentText_nil
      (by rw [htext, List.append_nil]) hvalue

/-- The `%g` text of a finite `float64` reads back as it. -/
theorem exists_numeral_formatG {q : ℚ} (hfloat : IsFloat64 q) :
    ∃ r, Numeral (formatG (.fin q)) r ∧ rounded r = q := by
  by_cases hq : q = 0
  · rw [hq]
    exact ⟨0, numeral_zero.2.1, numeral_zero.2.2⟩
  · cases hexp : usesExponent q with
    | false =>
      rw [formatG_eq_formatF hexp]
      exact exists_numeral_formatF hfloat
    | true =>
      obtain ⟨hprintable, hlow, hhigh, -⟩ := shortestDecimal_spec (abs_pos.2 hq) hfloat.1 hfloat.2
      have hdecimal : decimalOf q = shortestDecimal |q| := if_neg hq
      rw [← hdecimal] at hprintable hlow hhigh
      obtain ⟨whole, decimals, rest, e, hne, hw, hd, hrest, htext, hvalue⟩ :=
        exists_layoutE hprintable hlow hhigh
      rw [formatG, hexp]
      exact exists_numeral_signed hfloat hq hne hw hd hrest htext hvalue

/-- The text of a 64-bit integer reads back as it. -/
theorem numeral_toString {n : Int} (hlow : minInt64 ≤ n) (hhigh : n ≤ maxInt64) :
    Numeral (toString n) n := by
  obtain ⟨ds, hne, hds, htext, hvalue⟩ := exists_natText n.natAbs
  have hlimit : (digitsValue (ds ++ []) : ℚ) * 10 ^ ((0 : Int) - ([] : List Nat).length) <
      float64Limit := by
    obtain ⟨x, hx, hlimit, -, hbinade, -⟩ := exists_topPowers
    have hpow : (2 : ℚ) ^ (64 : Int) ≤ 2 ^ (1023 : Int) :=
      zpow_le_zpow_right₀ (by norm_num) (by norm_num)
    have habs : ((n.natAbs : Nat) : ℚ) < 2 ^ (64 : Int) := by
      have hnat : n.natAbs < 2 ^ 64 := by
        unfold minInt64 at hlow
        unfold maxInt64 at hhigh
        omega
      exact_mod_cast hnat
    rw [hbinade] at hpow
    rw [List.append_nil, hvalue, List.length_nil, Nat.cast_zero, sub_zero, zpow_zero, mul_one,
      hlimit]
    linarith only [hx, habs, hpow]
  have hparse := parseFloat_text (decide (n < 0)) hne hds (by simp) exponentText_nil hlimit
  have hshown : toString n = String.ofList ((if decide (n < 0) then ['-'] else []) ++
      (mantissaText ds [] ++ [])) := by
    rw [mantissaText, if_pos rfl, List.append_nil, List.append_nil, ← htext,
      Int.toString_eq_repr, Int.repr_eq_if, Nat.toString_eq_repr]
    rcases lt_or_ge n 0 with hneg | hnonneg
    · rw [if_neg (by omega), decide_eq_true hneg, if_pos rfl, String.ofList_append,
        String.ofList_toList, show (-n).toNat = n.natAbs by omega]
    · rw [if_pos hnonneg, decide_eq_false (by omega), if_neg (by decide), List.nil_append,
        String.ofList_toList, show n.toNat = n.natAbs by omega]
  rw [← hshown, List.append_nil, hvalue, List.length_nil, Nat.cast_zero, sub_zero, zpow_zero,
    mul_one] at hparse
  constructor
  · intro c hc
    rw [hshown, String.toList_ofList, List.append_nil, List.mem_append] at hc
    cases hc with
    | inl hc =>
      by_cases hneg : n < 0
      · rw [if_pos (decide_eq_true hneg), List.mem_singleton] at hc
        subst hc
        decide
      · rw [if_neg (by simpa using hneg)] at hc
        cases hc
    | inr hc => exact mantissaText_plain hds (by simp) c hc
  · rw [hparse]
    congr 2
    by_cases hneg : n < 0
    · rw [decide_eq_true hneg, if_pos rfl, neg_one_mul, Nat.cast_natAbs, abs_of_neg hneg]
      push_cast
      ring
    · rw [decide_eq_false hneg, if_neg (by decide), one_mul, Nat.cast_natAbs,
        abs_of_nonneg (by omega)]

/-- Text of a number's characters has nothing to trim. -/
theorem Numeral.trimSpace_eq {s : String} {r : ℚ} (h : Numeral s r) : trimSpace s = s := by
  have hkeep : ∀ l : List Char, (∀ c ∈ l, c ∈ numeralChars) → l.dropWhile isSpace = l := by
    intro l hl
    cases l with
    | nil => rfl
    | cons c l =>
      have hspace := (numeralChars_plain c (hl c List.mem_cons_self)).2.2.2
      exact List.dropWhile_cons_of_neg (by rw [hspace]; decide)
  rw [trimSpace, trim, hkeep _ h.plain, hkeep _ fun c hc => h.plain c (List.mem_reverse.1 hc),
    List.reverse_reverse, String.ofList_toList]

/-! ## The characters of a layout -/

theorem digitChar_mem_numeralChars {ds : List Nat} (h : ∀ d ∈ ds, d < 10) {c : Char}
    (hc : c ∈ ds.map digitChar) : c ∈ numeralChars := by
  obtain ⟨d, hd, rfl⟩ := List.mem_map.1 hc
  exact digitChar_mem (h d hd)

theorem natText_mem_numeralChars {n : Nat} {c : Char} (hc : c ∈ (toString n).toList) :
    c ∈ numeralChars := by
  obtain ⟨ds, -, hds, htext, -⟩ := exists_natText n
  rw [htext] at hc
  exact digitChar_mem_numeralChars hds hc

/-- A layout of decimal digits has the characters of a number only. -/
theorem layoutF_mem_numeralChars {d : Decimal} (h : ∀ n ∈ d.digits, n < 10) {c : Char}
    (hc : c ∈ layoutF d) : c ∈ numeralChars := by
  have hzero : '0' ∈ numeralChars := by decide
  have hdot : '.' ∈ numeralChars := by decide
  have htake : ∀ k, c ∈ (d.digits.take k).map digitChar → c ∈ numeralChars := fun k =>
    digitChar_mem_numeralChars fun n hn => h n (List.mem_of_mem_take hn)
  have hdrop : ∀ k, c ∈ (d.digits.drop k).map digitChar → c ∈ numeralChars := fun k =>
    digitChar_mem_numeralChars fun n hn => h n (List.mem_of_mem_drop hn)
  have hzeros : ∀ k, c ∈ List.replicate k '0' → c ∈ numeralChars := fun k hk => by
    rw [List.eq_of_mem_replicate hk]
    exact hzero
  have hwhole : c ∈ (if 0 < d.point then
      (d.digits.take d.point.toNat).map digitChar ++
        List.replicate (d.point.toNat - d.digits.length) '0'
    else ['0']) → c ∈ numeralChars := by
    intro hc
    split at hc
    · exact (List.mem_append.1 hc).elim (htake _) (hzeros _)
    · rw [List.mem_singleton.1 hc]
      exact hzero
  unfold layoutF at hc
  dsimp only at hc
  split at hc
  · rcases List.mem_append.1 hc with hc | hc
    · exact hwhole hc
    · rcases List.mem_cons.1 hc with rfl | hc
      · exact hdot
      · exact (List.mem_append.1 hc).elim (hzeros _) (hdrop _)
  · exact hwhole hc

theorem layoutE_mem_numeralChars {d : Decimal} (h : ∀ n ∈ d.digits, n < 10) {c : Char}
    (hc : c ∈ layoutE d) : c ∈ numeralChars := by
  have hzero : '0' ∈ numeralChars := by decide
  have hall : ∀ x ∈ d.digits.map digitChar, x ∈ numeralChars := fun x =>
    digitChar_mem_numeralChars h
  have hsign : ∀ b : Bool, (if b then '-' else '+') ∈ numeralChars := by decide
  have hexponent : ∀ n : Nat, c ∈ (if (toString n).toList.length < 2 then
      '0' :: (toString n).toList else (toString n).toList) → c ∈ numeralChars := by
    intro n hc
    split at hc
    · rcases List.mem_cons.1 hc with rfl | hc
      · exact hzero
      · exact natText_mem_numeralChars hc
    · exact natText_mem_numeralChars hc
  unfold layoutE at hc
  dsimp only at hc
  rcases List.mem_append.1 hc with hc | hc
  · rcases List.mem_append.1 hc with hc | hc
    · split at hc
      · rw [List.mem_singleton.1 hc]
        exact hzero
      · next a heq =>
        rw [heq] at hall
        exact hall c hc
      · next a rest heq =>
        rw [heq] at hall
        rcases List.mem_cons.1 hc with rfl | hc
        · exact hall _ List.mem_cons_self
        · rcases List.mem_cons.1 hc with rfl | hc
          · decide
          · exact hall _ (List.mem_cons_of_mem _ hc)
    · rcases List.mem_cons.1 hc with rfl | hc
      · decide
      · rw [List.mem_singleton.1 hc]
        simpa using hsign (decide ((if d.digits.isEmpty then 0 else d.point - 1) < 0))
  · exact hexponent _ hc

theorem decimalOf_digits (q : ℚ) : ∀ n ∈ (decimalOf q).digits, n < 10 := by
  intro n hn
  unfold decimalOf at hn
  split at hn
  · exact absurd hn List.not_mem_nil
  · simp only [shortestDecimal, Decimal.ofNat, List.reverse_reverse, List.mem_reverse] at hn
    exact Nat.digits_lt_base (by decide) ((List.dropWhile_suffix _).subset hn)

end Go
