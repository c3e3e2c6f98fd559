import Konnekt.Go.FloatText
import Konnekt.Js.Json

/-!
# The text of a value

`JSON.stringify` without an indentation. What the text leaves out is a number that is not
finite, which is written as null; two values with the same text are the same but for that.
-/

namespace Js

open Go

/-! ## Writing -/

/-- One character inside a string literal. -/
def escapeChar (c : Char) : List Char :=
  let n := c.toNat
  if c = '"' ∨ c = '\\' then ['\\', c]
  else if n = 8 then ['\\', 'b']
  else if n = 9 then ['\\', 't']
  else if n = 10 then ['\\', 'n']
  else if n = 12 then ['\\', 'f']
  else if n = 13 then ['\\', 'r']
  else if n < 32 then ['\\', 'u', '0', '0', hexDigit (n / 16), hexDigit (n % 16)]
  else [c]

/-- `QuoteJSONString`. -/
def quoteText (s : String) : List Char := '"' :: (s.toList.flatMap escapeChar ++ ['"'])

mutual

/-- `JSON.stringify`. -/
def stringify : Json → List Char
  | .null => "null".toList
  | .bool b => (if b then "true" else "false").toList
  | .num (.fin q) => (numberText (.fin q)).toList
  | .num _ => "null".toList
  | .str s => quoteText s
  | .arr elems => '[' :: (stringifyElems elems ++ [']'])
  | .obj fields => '{' :: (stringifyFields fields ++ ['}'])

/-- The elements of an array, with commas between them. -/
def stringifyElems : List Json → List Char
  | [] => []
  | [v] => stringify v
  | v :: w :: rest => stringify v ++ ',' :: stringifyElems (w :: rest)

/-- The properties of an object, with commas between them. -/
def stringifyFields : List (String × Json) → List Char
  | [] => []
  | [(name, v)] => quoteText name ++ ':' :: stringify v
  | (name, v) :: w :: rest =>
    quoteText name ++ ':' :: (stringify v ++ ',' :: stringifyFields (w :: rest))

end

mutual

/-- What a value is after it has been written. -/
def Json.written : Json → Json
  | .null => .null
  | .bool b => .bool b
  | .num (.fin q) => .num (.fin q)
  | .num _ => .null
  | .str s => .str s
  | .arr elems => .arr (writtenElems elems)
  | .obj fields => .obj (writtenFields fields)

def writtenElems : List Json → List Json
  | [] => []
  | v :: rest => v.written :: writtenElems rest

def writtenFields : List (String × Json) → List (String × Json)
  | [] => []
  | (name, v) :: rest => (name, v.written) :: writtenFields rest

end

mutual

/-- The numbers of a value are finite and those of a `float64`. -/
def Json.Exact : Json → Prop
  | .num (.fin q) => IsFloat64 q
  | .num _ => False
  | .arr elems => ExactElems elems
  | .obj fields => ExactFields fields
  | _ => True

def ExactElems : List Json → Prop
  | [] => True
  | v :: rest => v.Exact ∧ ExactElems rest

def ExactFields : List (String × Json) → Prop
  | [] => True
  | (_, v) :: rest => v.Exact ∧ ExactFields rest

end

mutual

/-- The finite numbers of a value are those of a `float64`. -/
def Json.Doubles : Json → Prop
  | .num (.fin q) => IsFloat64 q
  | .arr elems => DoublesElems elems
  | .obj fields => DoublesFields fields
  | _ => True

def DoublesElems : List Json → Prop
  | [] => True
  | v :: rest => v.Doubles ∧ DoublesElems rest

def DoublesFields : List (String × Json) → Prop
  | [] => True
  | (_, v) :: rest => v.Doubles ∧ DoublesFields rest

end

/-! ## Strings -/

/-- One character of a string literal read back. -/
def unescape : List Char → Option (Char × List Char)
  | '\\' :: 'u' :: '0' :: '0' :: a :: b :: r =>
    let value := fun c : Char => if c.toNat < 58 then c.toNat - 48 else c.toNat - 87
    some (Char.ofNat (16 * value a + value b), r)
  | '\\' :: 'b' :: r => some (Char.ofNat 8, r)
  | '\\' :: 't' :: r => some (Char.ofNat 9, r)
  | '\\' :: 'n' :: r => some (Char.ofNat 10, r)
  | '\\' :: 'f' :: r => some (Char.ofNat 12, r)
  | '\\' :: 'r' :: r => some (Char.ofNat 13, r)
  | '\\' :: c :: r => some (c, r)
  | c :: r => some (c, r)
  | [] => none

theorem unescape_escapeChar (c : Char) (r : List Char) :
    unescape (escapeChar c ++ r) = some (c, r) := by
  by_cases hlow : c.toNat < 32
  · obtain ⟨n, hn, rfl⟩ : ∃ n, n < 32 ∧ c = Char.ofNat n :=
      ⟨c.toNat, hlow, (Char.ofNat_toNat c).symm⟩
    interval_cases n <;> rfl
  · by_cases hmark : c = '"' ∨ c = '\\'
    · rcases hmark with rfl | rfl
      · rfl
      · rfl
    · have hescape : escapeChar c = [c] := by
        simp only [escapeChar, if_neg hmark]
        split_ifs <;> first | omega | rfl
      rw [not_or] at hmark
      rw [hescape, List.singleton_append]
      unfold unescape
      split <;> simp_all

/-- The quote mark stands in no character's text at the front. -/
theorem escapeChar_ne_quote (c : Char) (r s : List Char) : escapeChar c ++ r ≠ '"' :: s := by
  intro h
  have hread := unescape_escapeChar c r
  rw [h] at hread
  have hc : c = '"' := by
    cases hread
    rfl
  subst hc
  cases h

theorem quoteText_append {s t : String} {r r' : List Char}
    (h : quoteText s ++ r = quoteText t ++ r') : s = t ∧ r = r' := by
  have hlists : ∀ (l l' : List Char), l.flatMap escapeChar ++ '"' :: r =
      l'.flatMap escapeChar ++ '"' :: r' → l = l' ∧ r = r' := by
    intro l
    induction l with
    | nil =>
      intro l' h
      cases l' with
      | nil => exact ⟨rfl, (List.cons.inj h).2⟩
      | cons d l' =>
        rw [List.flatMap_cons, List.append_assoc] at h
        exact absurd h.symm (escapeChar_ne_quote d _ _)
    | cons c l ih =>
      intro l' h
      cases l' with
      | nil =>
        rw [List.flatMap_cons, List.append_assoc] at h
        exact absurd h (escapeChar_ne_quote c _ _)
      | cons d l' =>
        rw [List.flatMap_cons, List.flatMap_cons, List.append_assoc, List.append_assoc] at h
        have hread := unescape_escapeChar c (l.flatMap escapeChar ++ '"' :: r)
        rw [h, unescape_escapeChar, Option.some_inj, Prod.mk.injEq] at hread
        obtain ⟨hl, hr⟩ := ih l' hread.2.symm
        exact ⟨by rw [hread.1, hl], hr⟩
  simp only [quoteText, List.cons_append, List.append_assoc,
    List.cons.injEq, true_and] at h
  obtain ⟨hs, hr⟩ := hlists _ _ h
  exact ⟨String.toList_inj.1 hs, hr⟩

/-! ## Numbers -/

/-- The exponent form is a mantissa of one whole digit and an exponent. -/
theorem exists_layoutExponent {d : Decimal} (hd : d.Printable) (hlow : -10000 < d.point)
    (hhigh : d.point < 10000) : ∃ whole decimals rest e, whole ≠ [] ∧ (∀ n ∈ whole, n < 10) ∧
      (∀ n ∈ decimals, n < 10) ∧ ExponentText rest e ∧
      layoutExponent d = mantissaText whole decimals ++ rest ∧
      (digitsValue (whole ++ decimals) : ℚ) * 10 ^ (e - decimals.length) = d.value := by
  obtain ⟨ds, point⟩ := d
  cases ds with
  | nil => exact absurd rfl hd.ne_nil
  | cons a ds =>
    dsimp only at hlow hhigh
    obtain ⟨es, hne, hes, htext, hvalue⟩ := exists_natText (point - 1).natAbs
    refine ⟨[a], ds, _, _, by simp, ?_, ?_, exponentText_digits (decide (point - 1 < 0))
      hne hes (by rw [hvalue]; omega), ?_, ?_⟩
    · intro n hn
      rw [List.mem_singleton.1 hn]
      exact hd.digit a List.mem_cons_self
    · exact fun n hn => hd.digit n (List.mem_cons_of_mem _ hn)
    · rw [← htext]
      cases ds <;> simp [layoutExponent, mantissaText]
    · rw [List.singleton_append, Decimal.value, hvalue, List.length_cons]
      congr 2
      by_cases hneg : point - 1 < 0
      · simp only [hneg, decide_true, if_true]
        rw [Nat.cast_add, Nat.cast_one]
        omega
      · simp only [hneg, decide_false, Bool.false_eq_true, if_false]
        rw [Nat.cast_add, Nat.cast_one]
        omega

/-- The text of a finite number reads back as it. -/
theorem exists_numeral_numberText {q : ℚ} (hfloat : IsFloat64 q) :
    ∃ r, Numeral (numberText (.fin q)) r ∧ rounded r = q := by
  by_cases hq : q = 0
  · have htext : numberText (.fin 0) = formatF (.fin 0) := by decide
    rw [hq, htext]
    exact ⟨0, numeral_zero.1, numeral_zero.2.2⟩
  · obtain ⟨hprintable, hlow, hhigh, -⟩ := shortestDecimal_spec (abs_pos.2 hq) hfloat.1 hfloat.2
    have hdecimal : decimalOf q = shortestDecimal |q| := if_neg hq
    rw [← hdecimal] at hprintable hlow hhigh
    unfold numberText
    dsimp only
    split_ifs
    · obtain ⟨whole, decimals, hne, hw, hd, htext, hvalue⟩ := exists_layoutF hprintable
      exact exists_numeral_signed hfloat hq hne hw hd exponentText_nil
        (by rw [htext, List.append_nil]) hvalue
    · obtain ⟨whole, decimals, rest, e, hne, hw, hd, hrest, htext, hvalue⟩ :=
        exists_layoutExponent hprintable hlow hhigh
      exact exists_numeral_signed hfloat hq hne hw hd hrest htext hvalue

theorem numberText_injective {p q : ℚ} (hp : IsFloat64 p) (hq : IsFloat64 q)
    (h : numberText (.fin p) = numberText (.fin q)) : p = q := by
  obtain ⟨r, hr, hround⟩ := exists_numeral_numberText hp
  obtain ⟨s, hs, hround'⟩ := exists_numeral_numberText hq
  have hreads := hr.reads
  rw [h, hs.reads] at hreads
  cases hreads
  rw [← hround, hround']

/-- What follows a value is no character of a number. -/
def Follows (r : List Char) : Prop := ∀ c, r.head? = some c → c ∉ numeralChars

theorem follows_cons {c : Char} (h : c ∉ numeralChars) (r : List Char) : Follows (c :: r) := by
  intro d hd
  cases hd
  exact h

/-- The text of a number ends where something else follows. -/
theorem numberText_append {p q : ℚ} (hp : IsFloat64 p) (hq : IsFloat64 q) {r r' : List Char}
    (hr : Follows r) (hr' : Follows r')
    (h : (numberText (.fin p)).toList ++ r = (numberText (.fin q)).toList ++ r') :
    p = q ∧ r = r' := by
  have htake : ∀ (l : List Char), (∀ c ∈ l, c ∈ numeralChars) → ∀ {r : List Char}, Follows r →
      (l ++ r).takeWhile (· ∈ numeralChars) = l := by
    intro l hl r hr
    rw [List.takeWhile_append_of_pos (by simpa using hl)]
    cases r with
    | nil => simp
    | cons c r => simp [hr c rfl]
  obtain ⟨_, hnumeral, -⟩ := exists_numeral_numberText hp
  obtain ⟨_, hnumeral', -⟩ := exists_numeral_numberText hq
  have htext : (numberText (.fin p)).toList = (numberText (.fin q)).toList := by
    rw [← htake _ hnumeral.plain hr, h, htake _ hnumeral'.plain hr']
  rw [htext] at h
  exact ⟨numberText_injective hp hq (String.toList_inj.1 htext), List.append_cancel_left h⟩

/-! ## Values -/

/-- What kind of character a text starts with; the digits and the signs are one kind. -/
def kindOf (c : Char) : Char := if c ∈ numeralChars then '0' else c

/-- The kind of the first character of a value's text. -/
def Json.mark : Json → Char
  | .null => 'n'
  | .bool b => if b then 't' else 'f'
  | .num (.fin _) => '0'
  | .num _ => 'n'
  | .str _ => '"'
  | .arr _ => '['
  | .obj _ => '{'

theorem kindOf_of_not_mem {c : Char} (h : c ∉ numeralChars) : kindOf c = c := if_neg h

theorem mark_mem (v : Json) : v.mark ∈ ['n', 't', 'f', '0', '"', '[', '{'] := by
  cases v with
  | null => simp [Json.mark]
  | bool b => cases b <;> simp [Json.mark]
  | num f => cases f <;> simp [Json.mark]
  | str s => simp [Json.mark]
  | arr elems => simp [Json.mark]
  | obj fields => simp [Json.mark]

theorem exists_stringify {v : Json} (hv : v.Exact) :
    ∃ c cs, stringify v = c :: cs ∧ kindOf c = v.mark := by
  cases v with
  | null => exact ⟨'n', _, rfl, kindOf_of_not_mem (by decide)⟩
  | bool b =>
    cases b with
    | true => exact ⟨'t', _, rfl, kindOf_of_not_mem (by decide)⟩
    | false => exact ⟨'f', _, rfl, kindOf_of_not_mem (by decide)⟩
  | num f =>
    cases f with
    | fin q =>
      obtain ⟨r, hnumeral, -⟩ := exists_numeral_numberText hv
      cases htext : (numberText (.fin q)).toList with
      | nil =>
        have hempty : (parseFloat "").toOption = none := by decide
        rw [← String.toList_eq_nil_iff.1 htext, hnumeral.reads] at hempty
        cases hempty
      | cons c cs =>
        refine ⟨c, cs, htext, ?_⟩
        exact if_pos (hnumeral.plain c (by rw [htext]; exact List.mem_cons_self))
    | inf neg => exact hv.elim
    | nan => exact hv.elim
  | str s => exact ⟨'"', _, rfl, kindOf_of_not_mem (by decide)⟩
  | arr elems => exact ⟨'[', _, rfl, kindOf_of_not_mem (by decide)⟩
  | obj fields => exact ⟨'{', _, rfl, kindOf_of_not_mem (by decide)⟩

theorem mark_eq {v w : Json} (hv : v.Exact) (hw : w.Exact) {r r' : List Char}
    (h : stringify v ++ r = stringify w ++ r') : v.mark = w.mark := by
  obtain ⟨c, cs, hc, hmark⟩ := exists_stringify hv
  obtain ⟨d, ds, hd, hmark'⟩ := exists_stringify hw
  rw [hc, hd] at h
  rw [← hmark, ← hmark', (List.cons.inj h).1]

/-- Two values of the same shape, numbers being finite. -/
inductive Alike : Json → Json → Prop
  | null : Alike .null .null
  | bool (b : Bool) : Alike (.bool b) (.bool b)
  | num (p q : ℚ) : Alike (.num (.fin p)) (.num (.fin q))
  | str (s t : String) : Alike (.str s) (.str t)
  | arr (elems elems' : List Json) : Alike (.arr elems) (.arr elems')
  | obj (fields fields' : List (String × Json)) : Alike (.obj fields) (.obj fields')

/-- The first characters tell the shapes apart. -/
theorem alike_of_mark {v w : Json} (hv : v.Exact) (hw : w.Exact) (h : v.mark = w.mark) :
    Alike v w := by
  have hexact : ∀ {f : Float64}, (Json.num f).Exact → ∃ q, f = .fin q := by
    intro f hf
    cases f with
    | fin q => exact ⟨q, rfl⟩
    | inf neg => exact hf.elim
    | nan => exact hf.elim
  have hmark : ∀ b, (Json.bool b).mark = 't' ∨ (Json.bool b).mark = 'f' := by
    intro b
    cases b
    · exact .inr rfl
    · exact .inl rfl
  cases v with
  | num f =>
    obtain ⟨p, rfl⟩ := hexact hv
    cases w with
    | num f =>
      obtain ⟨q, rfl⟩ := hexact hw
      exact .num p q
    | bool b => rcases hmark b with hb | hb <;> rw [hb] at h <;> cases h
    | _ => cases h
  | bool b =>
    cases w with
    | bool b' =>
      cases b <;> cases b' <;> first | exact .bool _ | cases h
    | num f =>
      obtain ⟨q, rfl⟩ := hexact hw
      rcases hmark b with hb | hb <;> rw [hb] at h <;> cases h
    | _ => rcases hmark b with hb | hb <;> rw [hb] at h <;> cases h
  | _ =>
    cases w with
    | num f =>
      obtain ⟨q, rfl⟩ := hexact hw
      cases h
    | bool b => rcases hmark b with hb | hb <;> rw [hb] at h <;> cases h
    | _ => first | constructor | cases h

/-- No value's text starts with the end of an array. -/
theorem stringify_ne {v : Json} (hv : v.Exact) (r s : List Char) :
    stringify v ++ r ≠ ']' :: s := by
  obtain ⟨d, ds, hd, hmark⟩ := exists_stringify hv
  intro h
  rw [hd] at h
  rw [(List.cons.inj h).1, kindOf_of_not_mem (by decide)] at hmark
  have hmem := mark_mem v
  rw [← hmark] at hmem
  revert hmem
  decide

/-- What follows an element is a comma or the end of the array. -/
theorem stringifyElems_cons (v : Json) (rest : List Json) (r : List Char) :
    ∃ s, stringifyElems (v :: rest) ++ ']' :: r = stringify v ++ s ∧ Follows s ∧
      (rest = [] → s = ']' :: r) ∧
      (rest ≠ [] → s = ',' :: (stringifyElems rest ++ ']' :: r)) := by
  cases rest with
  | nil => exact ⟨_, rfl, follows_cons (by decide) r, fun _ => rfl, fun h => absurd rfl h⟩
  | cons w rest =>
    refine ⟨',' :: (stringifyElems (w :: rest) ++ ']' :: r), ?_, follows_cons (by decide) _,
      (fun h => by cases h), fun _ => rfl⟩
    rw [stringifyElems, List.append_assoc, List.cons_append]

/-- What follows a property is a comma or the end of the object. -/
theorem stringifyFields_cons (name : String) (v : Json) (rest : List (String × Json))
    (r : List Char) : ∃ s, stringifyFields ((name, v) :: rest) ++ '}' :: r =
      quoteText name ++ (':' :: (stringify v ++ s)) ∧ Follows s ∧
      (rest = [] → s = '}' :: r) ∧
      (rest ≠ [] → s = ',' :: (stringifyFields rest ++ '}' :: r)) := by
  cases rest with
  | nil =>
    refine ⟨'}' :: r, ?_, follows_cons (by decide) r, fun _ => rfl, fun h => absurd rfl h⟩
    rw [stringifyFields, List.append_assoc, List.cons_append]
  | cons w rest =>
    refine ⟨',' :: (stringifyFields (w :: rest) ++ '}' :: r), ?_, follows_cons (by decide) _,
      (fun h => by cases h), fun _ => rfl⟩
    rw [stringifyFields, List.append_assoc, List.cons_append, List.append_assoc, List.cons_append]

mutual

/-- A text is that of one value, whatever follows it. -/
theorem stringify_append : ∀ (v w : Json), v.Exact → w.Exact → ∀ {r r' : List Char},
    Follows r → Follows r' → stringify v ++ r = stringify w ++ r' → v = w ∧ r = r' := by
  intro v w hv hw r r' hr hr' h
  cases alike_of_mark hv hw (mark_eq hv hw h) with
  | null => exact ⟨rfl, List.append_cancel_left h⟩
  | bool b => exact ⟨rfl, List.append_cancel_left h⟩
  | num p q =>
    obtain ⟨rfl, hrest⟩ := numberText_append hv hw hr hr' h
    exact ⟨rfl, hrest⟩
  | str s t =>
    obtain ⟨rfl, hrest⟩ := quoteText_append h
    exact ⟨rfl, hrest⟩
  | arr elems elems' =>
    simp only [stringify, List.cons_append, List.append_assoc, List.cons.injEq, true_and] at h
    obtain ⟨rfl, hrest⟩ := stringifyElems_append elems elems' hv hw h
    exact ⟨rfl, hrest⟩
  | obj fields fields' =>
    simp only [stringify, List.cons_append, List.append_assoc, List.cons.injEq, true_and] at h
    obtain ⟨rfl, hrest⟩ := stringifyFields_append fields fields' hv hw h
    exact ⟨rfl, hrest⟩

theorem stringifyElems_append : ∀ (l l' : List Json), ExactElems l → ExactElems l' →
    ∀ {r r' : List Char}, stringifyElems l ++ ']' :: r = stringifyElems l' ++ ']' :: r' →
      l = l' ∧ r = r'
  | [], [], _, _, r, r', h => ⟨rfl, (List.cons.inj h).2⟩
  | [], w :: l', _, hl', r, r', h => by
    obtain ⟨s, hs, -⟩ := stringifyElems_cons w l' r'
    rw [hs] at h
    exact absurd h.symm (stringify_ne hl'.1 _ _)
  | v :: l, [], hl, _, r, r', h => by
    obtain ⟨s, hs, -⟩ := stringifyElems_cons v l r
    rw [hs] at h
    exact absurd h (stringify_ne hl.1 _ _)
  | v :: l, w :: l', hl, hl', r, r', h => by
    obtain ⟨s, hs, hfollows, hend, hmore⟩ := stringifyElems_cons v l r
    obtain ⟨s', hs', hfollows', hend', hmore'⟩ := stringifyElems_cons w l' r'
    rw [hs, hs'] at h
    obtain ⟨rfl, hrest⟩ := stringify_append v w hl.1 hl'.1 hfollows hfollows' h
    by_cases hnil : l = []
    · by_cases hnil' : l' = []
      · rw [hend hnil, hend' hnil'] at hrest
        exact ⟨by rw [hnil, hnil'], (List.cons.inj hrest).2⟩
      · rw [hend hnil, hmore' hnil'] at hrest
        cases (List.cons.inj hrest).1
    · by_cases hnil' : l' = []
      · rw [hmore hnil, hend' hnil'] at hrest
        cases (List.cons.inj hrest).1
      · rw [hmore hnil, hmore' hnil'] at hrest
        obtain ⟨hl, hr⟩ := stringifyElems_append l l' hl.2 hl'.2 (List.cons.inj hrest).2
        exact ⟨by rw [hl], hr⟩

theorem stringifyFields_append : ∀ (l l' : List (String × Json)), ExactFields l →
    ExactFields l' → ∀ {r r' : List Char},
      stringifyFields l ++ '}' :: r = stringifyFields l' ++ '}' :: r' → l = l' ∧ r = r'
  | [], [], _, _, r, r', h => ⟨rfl, (List.cons.inj h).2⟩
  | [], (name, w) :: l', _, _, r, r', h => by
    obtain ⟨s, hs, -⟩ := stringifyFields_cons name w l' r'
    rw [hs] at h
    cases (List.cons.inj h).1
  | (name, v) :: l, [], _, _, r, r', h => by
    obtain ⟨s, hs, -⟩ := stringifyFields_cons name v l r
    rw [hs] at h
    cases (List.cons.inj h).1
  | (name, v) :: l, (name', w) :: l', hl, hl', r, r', h => by
    obtain ⟨s, hs, hfollows, hend, hmore⟩ := stringifyFields_cons name v l r
    obtain ⟨s', hs', hfollows', hend', hmore'⟩ := stringifyFields_cons name' w l' r'
    rw [hs, hs'] at h
    obtain ⟨rfl, hvalue⟩ := quoteText_append h
    obtain ⟨rfl, hrest⟩ :=
      stringify_append v w hl.1 hl'.1 hfollows hfollows' (List.cons.inj hvalue).2
    by_cases hnil : l = []
    · by_cases hnil' : l' = []
      · rw [hend hnil, hend' hnil'] at hrest
        exact ⟨by rw [hnil, hnil'], (List.cons.inj hrest).2⟩
      · rw [hend hnil, hmore' hnil'] at hrest
        cases (List.cons.inj hrest).1
    · by_cases hnil' : l' = []
      · rw [hmore hnil, hend' hnil'] at hrest
        cases (List.cons.inj hrest).1
      · rw [hmore hnil, hmore' hnil'] at hrest
        obtain ⟨hl, hr⟩ := stringifyFields_append l l' hl.2 hl'.2 (List.cons.inj hrest).2
        exact ⟨by rw [hl], hr⟩

end

/-! ## What is left out -/

mutual

theorem exact_written : ∀ v : Json, v.Doubles → v.written.Exact
  | .null, _ => trivial
  | .bool _, _ => trivial
  | .num (.fin _), h => h
  | .num (.inf _), _ => trivial
  | .num .nan, _ => trivial
  | .str _, _ => trivial
  | .arr elems, h => exact_writtenElems elems h
  | .obj fields, h => exact_writtenFields fields h

theorem exact_writtenElems : ∀ l : List Json, DoublesElems l → ExactElems (writtenElems l)
  | [], _ => trivial
  | v :: l, h => ⟨exact_written v h.1, exact_writtenElems l h.2⟩

theorem exact_writtenFields : ∀ l : List (String × Json), DoublesFields l →
    ExactFields (writtenFields l)
  | [], _ => trivial
  | (_, v) :: l, h => ⟨exact_written v h.1, exact_writtenFields l h.2⟩

end

mutual

/-- The text is that of what is written. -/
theorem stringify_written : ∀ v : Json, stringify v.written = stringify v
  | .null => rfl
  | .bool _ => rfl
  | .num (.fin _) => rfl
  | .num (.inf _) => rfl
  | .num .nan => rfl
  | .str _ => rfl
  | .arr elems => by
    rw [Json.written, stringify, stringify, stringify_writtenElems elems]
  | .obj fields => by
    rw [Json.written, stringify, stringify, stringify_writtenFields fields]

theorem stringify_writtenElems : ∀ l : List Json, stringifyElems (writtenElems l) = stringifyElems l
  | [] => rfl
  | [v] => stringify_written v
  | v :: w :: l => by
    have hrest := stringify_writtenElems (w :: l)
    rw [writtenElems] at hrest
    rw [writtenElems, writtenElems, stringifyElems, stringifyElems, stringify_written v, hrest]

theorem stringify_writtenFields : ∀ l : List (String × Json),
    stringifyFields (writtenFields l) = stringifyFields l
  | [] => rfl
  | [(name, v)] => by
    rw [writtenFields, writtenFields, stringifyFields, stringifyFields, stringify_written v]
  | (name, v) :: (name', w) :: l => by
    have hrest := stringify_writtenFields ((name', w) :: l)
    rw [writtenFields] at hrest
    rw [writtenFields, writtenFields, stringifyFields, stringifyFields, stringify_written v, hrest]

end

/-- Two values with the same text are written alike. -/
theorem written_eq_of_stringify {v w : Json} (hv : v.Doubles) (hw : w.Doubles)
    (h : stringify v = stringify w) : v.written = w.written := by
  have hnil : Follows [] := fun c hc => by cases hc
  rw [← stringify_written v, ← stringify_written w] at h
  exact (stringify_append _ _ (exact_written v hv) (exact_written w hw) hnil hnil
    (by rw [h])).1

end Js
