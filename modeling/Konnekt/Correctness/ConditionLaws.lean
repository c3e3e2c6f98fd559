import Konnekt.Go.FloatText
import Konnekt.Scheduler.Blocks

/-!
# The laws of a condition's comparisons

The operators of a condition are read off one ordering of the two operands, except that
equality with the text of a boolean goes by truth. The laws of an order therefore hold of
them up to the pairs that are equal by truth and still differ as texts.
-/

namespace Konnekt.Scheduler

open Go

/-! ## The text of a boolean -/

/-- The letters that only the texts of booleans have. -/
def boolLetter (c : Char) : Bool := lower c == 'r' || lower c == 'l'

theorem boolLetter_of_numeral {c : Char} (hc : c ∈ numeralChars) : boolLetter c = false := by
  have hall : numeralChars.all (fun c => !boolLetter c) = true := by decide
  simpa using List.all_eq_true.1 hall c hc

/-- A printed number has none of these letters. -/
theorem boolLetter_formatG {f : Float64} {c : Char} (hc : c ∈ (formatG f).toList) :
    boolLetter c = false := by
  cases f with
  | fin q =>
    rw [formatG, signed, String.toList_ofList] at hc
    have hlayout : ∀ x ∈ if usesExponent q then layoutE (decimalOf q) else layoutF (decimalOf q),
        x ∈ numeralChars := by
      intro x hx
      split at hx
      · exact layoutE_mem_numeralChars (decimalOf_digits q) hx
      · exact layoutF_mem_numeralChars (decimalOf_digits q) hx
    apply boolLetter_of_numeral
    split at hc
    · rcases List.mem_cons.1 hc with rfl | hc
      · decide
      · exact hlayout c hc
    · exact hlayout c hc
  | inf neg =>
    have hall : (formatG (.inf neg)).toList.all (fun c => !boolLetter c) = true := by
      cases neg <;> decide
    simpa using List.all_eq_true.1 hall c hc
  | nan =>
    have hall : (formatG .nan).toList.all (fun c => !boolLetter c) = true := by decide
    simpa using List.all_eq_true.1 hall c hc

theorem boolLetter_intText {n : Int} {c : Char} (hc : c ∈ (toString n).toList) :
    boolLetter c = false := by
  apply boolLetter_of_numeral
  cases n with
  | ofNat n => exact natText_mem_numeralChars hc
  | negSucc n =>
    have htext : (toString (Int.negSucc n)).toList = '-' :: (toString (n + 1)).toList := by
      simp [toString, Int.repr]
    rw [htext] at hc
    rcases List.mem_cons.1 hc with rfl | hc
    · decide
    · exact natText_mem_numeralChars hc

/-- The text of a boolean has one of these letters. -/
theorem exists_boolLetter {s : String} (h : isBoolText (.str s) = true) :
    ∃ c ∈ s.toList, boolLetter c = true := by
  have hmem : ∀ c ∈ (trimSpace s).toList, c ∈ s.toList := by
    intro c hc
    rw [trimSpace, String.toList_ofList] at hc
    obtain ⟨lead, trail, hsplit, -, -⟩ := exists_trim s.toList
    rw [hsplit]
    exact List.mem_append_right _ (List.mem_append_left _ hc)
  have hlower : ∀ t : String, toLower (trimSpace s) = t → ∀ x ∈ t.toList,
      ∃ c ∈ s.toList, lower c = x := by
    rintro t rfl x hx
    rw [toLower, String.toList_ofList] at hx
    obtain ⟨c, hc, hx⟩ := List.mem_map.1 hx
    exact ⟨c, hmem c hc, hx⟩
  simp only [isBoolText, Bool.or_eq_true, beq_iff_eq] at h
  rcases h with h | h
  · obtain ⟨c, hc, hx⟩ := hlower _ h 'r' (by decide)
    exact ⟨c, hc, by simp [boolLetter, hx]⟩
  · obtain ⟨c, hc, hx⟩ := hlower _ h 'l' (by decide)
    exact ⟨c, hc, by simp [boolLetter, hx]⟩

/-! ## Reading the text of a boolean -/

theorem digitVal_of_lower {c : Char} (h : lower c = 't' ∨ lower c = 'f') : digitVal c = none := by
  unfold digitVal
  rw [if_neg]
  rintro ⟨-, hc⟩
  have hsame : lower c = c := if_neg fun hup => by
    have hlow : 65 ≤ c.toNat := hup.1
    have hhigh : c.toNat ≤ 57 := hc
    omega
  rw [hsame] at h
  rcases h with rfl | rfl <;> exact absurd hc (by decide)

/-- A text that starts with one of the two letters is no number. -/
theorem readFloat_of_lower {c : Char} (h : lower c = 't' ∨ lower c = 'f') (cs : List Char) :
    stripSign (c :: cs) = (false, c :: cs) ∧ readFloat (c :: cs) = none := by
  have hne : ∀ x ∈ ['+', '-', '_', '.', '0'], c ≠ x := by
    rintro x hx rfl
    simp only [List.mem_cons, List.not_mem_nil, or_false] at hx
    rcases hx with rfl | rfl | rfl | rfl | rfl <;> exact absurd h (by decide)
  simp only [List.mem_cons, List.not_mem_nil, or_false, forall_eq_or_imp, forall_eq] at hne
  obtain ⟨hplus, hminus, hscore, hdot, hzero⟩ := hne
  have hstrip : stripSign (c :: cs) = (false, c :: cs) := by
    unfold stripSign
    split <;> simp_all
  have hhex : stripHexPrefix (c :: cs) = (false, c :: cs) := by
    unfold stripHexPrefix
    split <;> simp_all
  refine ⟨hstrip, ?_⟩
  simp [readFloat, hstrip, hhex, scanMantissa, hscore, hdot, mantissaDigit,
    digitVal_of_lower h]

/-- The text of a boolean reads as no number. -/
theorem toFloat_of_isBoolText {s : String} (h : isBoolText (.str s) = true) :
    ∃ m, toFloat (.str s) = .error m := by
  simp only [isBoolText, Bool.or_eq_true, beq_iff_eq] at h
  have hparse : ∃ m, parseFloat (trimSpace s) = .error m := by
    generalize trimSpace s = t at h
    have hmap : t.toList.map lower = "true".toList ∨ t.toList.map lower = "false".toList := by
      rcases h with h | h
      · exact .inl (by rw [← h, toLower, String.toList_ofList])
      · exact .inr (by rw [← h, toLower, String.toList_ofList])
    cases hcs : t.toList with
    | nil => simp [hcs] at hmap
    | cons c cs =>
      rw [hcs] at hmap
      have hlower : lower c = 't' ∨ lower c = 'f' := by
        rcases hmap with h | h
        · exact .inl (List.cons.inj h).1
        · exact .inr (List.cons.inj h).1
      obtain ⟨hstrip, hread⟩ := readFloat_of_lower hlower cs
      have hspecial : readSpecial (c :: cs) = none := by
        unfold readSpecial
        simp only [hstrip]
        rcases hmap with h | h <;> rw [h] <;> rfl
      exact ⟨numError "ParseFloat" t "invalid syntax", by
        simp only [parseFloat, hcs, hspecial, hread]⟩
  obtain ⟨m, hparse⟩ := hparse
  exact ⟨"cannot use " ++ quote s ++ " as a number", by simp only [toFloat, hparse]⟩

/-- A value that is printed as the text of a boolean is read as the same boolean, if as any. -/
theorem boolOperand_of_sprintV {v : Value} {s : String} {b : Bool}
    (hs : isBoolText (.str s) = true) (htext : v.sprintV = s) (hb : boolOperand v = some b) :
    boolOperand (.str s) = some b := by
  obtain ⟨c, hc, hletter⟩ := exists_boolLetter hs
  have hnumber : ∀ f, v = .num f → False := by
    rintro f rfl
    rw [← htext] at hc
    rw [boolLetter_formatG hc] at hletter
    cases hletter
  have hint : ∀ n : Int, v.sprintV = toString n → False := by
    intro n hn
    rw [← htext, hn] at hc
    rw [boolLetter_intText hc] at hletter
    cases hletter
  cases v with
  | nil => simp [boolOperand] at hb
  | str t =>
    cases htext
    exact hb
  | num f => exact (hnumber f rfl).elim
  | int n => exact (hint n rfl).elim
  | int64 n => exact (hint n rfl).elim
  | bool t =>
    rw [← hb, ← htext]
    cases t <;> decide
  | other t => simp [boolOperand, toFloat] at hb

/-! ## Comparing two operands -/

/-- The order of two pairs of operands is the same as long as they read the same. -/
theorem compareOperands_swap {e e' : ExecContext}
    (hleft : e'.getNumber "left" = e.getNumber "right")
    (hright : e'.getNumber "right" = e.getNumber "left")
    (hl : e'.getString "left" = e.getString "right")
    (hr : e'.getString "right" = e.getString "left") :
    compareOperands e' = (compareOperands e).swap := by
  have hnumber : ∀ f g : Float64, (if g.lt f then Ordering.lt else if f.lt g then .gt else .eq) =
      (if f.lt g then Ordering.lt else if g.lt f then .gt else .eq).swap := by
    intro f g
    have hasymm : f.lt g = true → g.lt f = true → False := by
      cases f with
      | fin p =>
        cases g with
        | fin q =>
          simp only [Float64.lt, decide_eq_true_eq]
          exact fun h => h.asymm
        | inf neg => simp [Float64.lt]
        | nan => simp [Float64.lt]
      | inf neg => cases g <;> cases neg <;> simp [Float64.lt]
      | nan => simp [Float64.lt]
    by_cases hfg : f.lt g = true
    · by_cases hgf : g.lt f = true
      · exact (hasymm hfg hgf).elim
      · simp [hfg, hgf]
    · by_cases hgf : g.lt f = true <;> simp [hfg, hgf]
  have htext : compare (e.getString "right") (e.getString "left") =
      (compare (e.getString "left") (e.getString "right")).swap :=
    Std.OrientedCmp.eq_swap
  unfold compareOperands
  rw [hleft, hright, hl, hr]
  cases e.getNumber "left" with
  | none => cases e.getNumber "right" <;> exact htext
  | some f =>
    cases e.getNumber "right" with
    | none => exact htext
    | some g => exact hnumber f g

/-- A condition's configuration with an operator and its two operands. -/
def ExecContext.comparing (e : ExecContext) (op : String) (l r : Value) : ExecContext :=
  { e with config := ((e.config.insert "op" (.str op)).insert "left" l).insert "right" r }

section

variable (e : ExecContext) (op : String) (l r : Value)

@[simp] theorem comparing_op : (e.comparing op l r).config.lookup "op" = some (.str op) := by
  rw [ExecContext.comparing, AList.lookup_insert_ne (by decide),
    AList.lookup_insert_ne (by decide), AList.lookup_insert]

@[simp] theorem comparing_left : (e.comparing op l r).config.lookup "left" = some l := by
  rw [ExecContext.comparing, AList.lookup_insert_ne (by decide), AList.lookup_insert]

@[simp] theorem comparing_right : (e.comparing op l r).config.lookup "right" = some r := by
  rw [ExecContext.comparing, AList.lookup_insert]

end

/-- The condition takes its true branch. -/
def Fires {W : Type} (e : ExecContext) (w : W) (op : String) (l r : Value) : Prop :=
  ∃ x, execCondition (e.comparing op l r) w = .ok x ∧ x.result = .done "onTrue"

/-- One operand is the text of a boolean, and both read as the same boolean. -/
def SameTruth (l r : Value) : Prop :=
  (isBoolText l = true ∨ isBoolText r = true) ∧ ∃ b, boolOperand l = some b ∧ boolOperand r = some b

/-! ## The laws -/

section

variable (e : ExecContext) (op : String) (l r : Value)

/-- The order of two operands, whatever operator asks for it. -/
theorem compareOperands_comparing :
    compareOperands (e.comparing op l r) = compareOperands (e.comparing "eq" l r) := by
  simp [compareOperands, ExecContext.getNumber, ExecContext.getString]

theorem compareOperands_comparing_swap :
    compareOperands (e.comparing op r l) = (compareOperands (e.comparing op l r)).swap := by
  apply compareOperands_swap <;> simp [ExecContext.getNumber, ExecContext.getString]

theorem SameTruth.symm {l r : Value} (h : SameTruth l r) : SameTruth r l := by
  obtain ⟨htext, b, hl, hr⟩ := h
  exact ⟨htext.symm, b, hr, hl⟩

theorem boolEquality_eq_some_true :
    boolEquality (e.comparing op l r) = some true ↔ SameTruth l r := by
  simp only [boolEquality, ExecContext.value, comparing_left, comparing_right, Option.getD_some,
    SameTruth, Bool.or_eq_true]
  by_cases htext : isBoolText l = true ∨ isBoolText r = true
  · rw [if_pos htext]
    cases hl : boolOperand l with
    | none => simp
    | some b =>
      cases hr : boolOperand r with
      | none => simp
      | some c => simpa [htext] using eq_comm
  · simp [htext]

/-- With the text of a boolean on one side, operands are ordered as texts. -/
theorem compareOperands_of_isBoolText (h : isBoolText l = true ∨ isBoolText r = true) :
    compareOperands (e.comparing op l r) = compare
      ((e.comparing op l r).getString "left") ((e.comparing op l r).getString "right") := by
  have hnone : ∀ {v : Value} {m : GoMap Value} {k : String}, isBoolText v = true →
      m.lookup k = some v → ({ e with config := m } : ExecContext).getNumber k = none := by
    intro v m k hv hlookup
    cases v with
    | str s =>
      obtain ⟨m, hm⟩ := toFloat_of_isBoolText hv
      simp [ExecContext.getNumber, hlookup, hm]
    | _ => cases hv
  unfold compareOperands
  rcases h with h | h
  · rw [show (e.comparing op l r).getNumber "left" = none from hnone h (comparing_left e op l r)]
  · rw [show (e.comparing op l r).getNumber "right" = none from hnone h (comparing_right e op l r)]
    cases (e.comparing op l r).getNumber "left" <;> rfl

theorem getString_of_boolOperand {e : ExecContext} {k : String} {v : Value} {b : Bool}
    (hlookup : e.config.lookup k = some v) (hv : boolOperand v = some b) :
    e.getString k = v.sprintV := by
  cases v with
  | nil => simp [boolOperand] at hv
  | _ => simp [ExecContext.getString, hlookup]

/-- Operands of one truth are equal in the order only as the same text. -/
theorem compareOperands_eq_iff {b c : Bool} (htext : isBoolText l = true ∨ isBoolText r = true)
    (hl : boolOperand l = some b) (hr : boolOperand r = some c) :
    compareOperands (e.comparing op l r) = .eq ↔ l.sprintV = r.sprintV := by
  rw [compareOperands_of_isBoolText e op l r htext,
    getString_of_boolOperand (comparing_left e op l r) hl,
    getString_of_boolOperand (comparing_right e op l r) hr]
  exact Std.LawfulEqCmp.compare_eq_iff_eq

/-- Operands that are printed the same are not told apart by their truth. -/
theorem eq_of_sprintV_eq {l r : Value} {b c : Bool}
    (htext : isBoolText l = true ∨ isBoolText r = true)
    (hl : boolOperand l = some b) (hr : boolOperand r = some c) (h : l.sprintV = r.sprintV) :
    b = c := by
  rcases htext with ht | ht
  · cases l with
    | str s =>
      have hsame := boolOperand_of_sprintV ht h.symm hr
      rw [hl] at hsame
      exact Option.some.inj hsame
    | _ => cases ht
  · cases r with
    | str s =>
      have hsame := boolOperand_of_sprintV ht h hl
      rw [hr] at hsame
      exact (Option.some.inj hsame).symm
    | _ => cases ht

theorem boolEquality_eq_some_false (h : boolEquality (e.comparing op l r) = some false) :
    compareOperands (e.comparing op l r) ≠ .eq := by
  simp only [boolEquality, ExecContext.value, comparing_left, comparing_right, Option.getD_some,
    Bool.or_eq_true] at h
  by_cases htext : isBoolText l = true ∨ isBoolText r = true
  · rw [if_pos htext] at h
    cases hl : boolOperand l with
    | none => simp [hl] at h
    | some b =>
      cases hr : boolOperand r with
      | none => simp [hl, hr] at h
      | some c =>
        simp only [hl, hr, Option.some.injEq, beq_eq_false_iff_ne] at h
        intro heq
        exact h (eq_of_sprintV_eq htext hl hr
          ((compareOperands_eq_iff e op l r htext hl hr).1 heq))
  · simp [htext] at h

end

section

variable {W : Type} (e : ExecContext) (w : W) (l r : Value)

theorem fires_iff {op : String} (hop : gateEval op = none) :
    Fires e w op l r ↔ compareValues (e.comparing op l r) op = true := by
  have hget : (e.comparing op l r).getString "op" = op := by
    simp [ExecContext.getString, Value.sprintV]
  simp only [Fires, execCondition, hget, hop]
  by_cases h : compareValues (e.comparing op l r) op = true
  · simp [h, finish]
  · simp [h, finish, ExecResult.done]

theorem fires_lt : Fires e w "lt" l r ↔ compareOperands (e.comparing "eq" l r) = .lt := by
  rw [fires_iff e w l r (by decide), ← compareOperands_comparing e "lt"]
  simp [compareValues]

theorem fires_gt : Fires e w "gt" l r ↔ compareOperands (e.comparing "eq" l r) = .gt := by
  rw [fires_iff e w l r (by decide), ← compareOperands_comparing e "gt"]
  simp [compareValues]

theorem fires_eq : Fires e w "eq" l r ↔
    SameTruth l r ∨ compareOperands (e.comparing "eq" l r) = .eq := by
  rw [fires_iff e w l r (by decide), ← boolEquality_eq_some_true e "eq"]
  have hfalse := boolEquality_eq_some_false e "eq" l r
  cases h : boolEquality (e.comparing "eq" l r) with
  | none => simp [compareValues, h]
  | some b =>
    cases b with
    | false => simp [compareValues, h, hfalse h]
    | true => simp [compareValues, h]

theorem fires_ne : Fires e w "ne" l r ↔ ¬ Fires e w "eq" l r := by
  rw [fires_eq, fires_iff e w l r (by decide), ← boolEquality_eq_some_true e "ne",
    ← compareOperands_comparing e "ne"]
  have hfalse := boolEquality_eq_some_false e "ne" l r
  cases h : boolEquality (e.comparing "ne" l r) with
  | none => simp [compareValues, h]
  | some b =>
    cases b with
    | false => simp [compareValues, h, hfalse h]
    | true => simp [compareValues, h]

/-- The operators are those of one order, except that operands equal by truth may be
ordered besides, which they are exactly where they are printed differently. -/
theorem condition_comparisons :
    (Fires e w "ne" l r ↔ ¬ Fires e w "eq" l r) ∧
    (Fires e w "eq" l r ↔ Fires e w "eq" r l) ∧
    (Fires e w "gt" l r ↔ Fires e w "lt" r l) ∧
    (Fires e w "lt" l r ∨ Fires e w "eq" l r ∨ Fires e w "gt" l r) ∧
    ¬ (Fires e w "lt" l r ∧ Fires e w "gt" l r) ∧
    (Fires e w "eq" l r ∧ (Fires e w "lt" l r ∨ Fires e w "gt" l r) ↔
      SameTruth l r ∧ l.sprintV ≠ r.sprintV) := by
  have hswap := compareOperands_comparing_swap e "eq" l r
  have htruth : SameTruth l r →
      (compareOperands (e.comparing "eq" l r) = .eq ↔ l.sprintV = r.sprintV) := by
    rintro ⟨htext, b, hl, hr⟩
    exact compareOperands_eq_iff e "eq" l r htext hl hr
  simp only [fires_ne, fires_eq, fires_lt, fires_gt]
  rw [hswap]
  have hsymm : SameTruth l r ↔ SameTruth r l := ⟨SameTruth.symm, SameTruth.symm⟩
  cases hcmp : compareOperands (e.comparing "eq" l r) with
  | lt => simp_all
  | eq => simp_all
  | gt => simp_all

end

/-- A condition without anything wired or configured yet. -/
def bareCondition : ExecContext where
  serverID := "s1"
  config := ∅
  rawConfig := ∅
  dataIn := ∅
  attrs := ⟨"s1", fun _ => ⟨20, 0, 0, 0, true, 20, .ok (), .ok ∅⟩, ∅⟩

/-- A wired 1 equals the text of true and is less than it. -/
theorem not_condition_trichotomy : ¬ ∀ (e : ExecContext) (l r : Value),
    ¬ (Fires e () "eq" l r ∧ Fires e () "lt" l r) := by
  intro h
  refine h bareCondition (.num 1) (.str "true") ⟨?_, ?_⟩
  · rw [fires_eq]
    exact .inl ⟨.inr (by decide +kernel), true, by decide +kernel, by decide +kernel⟩
  · rw [fires_lt]
    decide +kernel

end Konnekt.Scheduler
