import Konnekt.Scheduler.Attributes
import Mathlib.Data.List.Nodup

/-!
# Syntax trees of attribute expressions

The evaluator parses and computes in one pass. Here the same text is first read
into a tree, in which a syntax error is a leaf at the place where it is found, and
the tree is evaluated from left to right. The two agree on every text, so facts
about evaluation are facts about trees; the parser's budget always suffices.
-/

namespace Konnekt.Scheduler

open Go

/-- The parse tree of an expression; errors of the parse are leaves of it. -/
inductive Expr where
  /-- A number or a quoted string. -/
  | lit (v : Value)
  | ref (name : String)
  | neg (e : Expr)
  | bin (op : BinOp) (l r : Expr)
  /-- No expression can be read here. -/
  | fail (message : String)
  /-- A complete expression followed by text that does not fit. -/
  | andFail (e : Expr) (message : String)
  | exhausted

namespace Expr

/-- Left-to-right evaluation. -/
def eval (resolve : String → Outcome Value) : Expr → Outcome Value
  | lit v => .ok v
  | ref name => resolve name
  | neg e => e.eval resolve >>= negate
  | bin op l r => do
    let lv ← l.eval resolve
    let rv ← r.eval resolve
    applyOp op lv rv
  | fail m => .err m
  | andFail e m => e.eval resolve >>= fun _ => .err m
  | exhausted => .panic outOfBudget

/-- No leaf marks an exhausted budget. -/
def Complete : Expr → Prop
  | lit _ | ref _ | fail _ => True
  | neg e | andFail e _ => e.Complete
  | bin _ l r => l.Complete ∧ r.Complete
  | exhausted => False

/-- The last place evaluation reaches is an error leaf. -/
def stops : Expr → Bool
  | lit _ | ref _ => false
  | neg e => e.stops
  | bin _ _ r => r.stops
  | fail _ | andFail _ _ | exhausted => true

/-- A tree that stops has no value, whatever the references mean. -/
theorem eval_ne_ok_of_stops (resolve : String → Outcome Value) {e : Expr}
    (h : e.stops = true) (v : Value) : e.eval resolve ≠ .ok v := by
  induction e generalizing v with
  | lit _ => cases h
  | ref _ => cases h
  | neg e ih =>
    cases he : e.eval resolve with
    | ok w => exact absurd he (ih h w)
    | err m => simp [eval, he]
    | panic r => simp [eval, he]
  | bin op l r _ ih =>
    cases hl : l.eval resolve with
    | ok lv =>
      cases hr : r.eval resolve with
      | ok rv => exact absurd hr (ih h rv)
      | err m => simp [eval, hl, hr]
      | panic m => simp [eval, hl, hr]
    | err m => simp [eval, hl]
    | panic m => simp [eval, hl]
  | fail m => simp [eval]
  | andFail e m _ => cases he : e.eval resolve <;> simp [eval, he]
  | exhausted => simp [eval]

end Expr

/-! ## Reading a tree -/

/-- A tree and the text behind it, or no text when the parse stopped inside it. -/
abbrev TreeParsed := Expr × Option (List Char)

def treeRef (s : List Char) : TreeParsed :=
  let name := s.takeWhile isRefChar
  if name.isEmpty then (.fail "empty attribute reference", none)
  else (.ref (String.ofList name), some (s.dropWhile isRefChar))

/-- The tree counterpart of `parseLiteral`. -/
def treeLiteral (c : Char) (rest : List Char) : TreeParsed :=
  if c = '"' ∨ c = '\'' then
    match parseString c rest with
    | some (v, rest) => (.lit v, some rest)
    | none => (.fail "unterminated string literal", none)
  else if isNumberChar c then
    match parseNumber (c :: rest) with
    | (.ok v, rest) => (.lit v, some rest)
    | (.error m, _) => (.fail m, none)
  else (.fail (unexpected [leadByte c]), none)

/-- The tree counterpart of `parseClose`. -/
def treeClose (e : Expr) (rest : List Char) : TreeParsed :=
  match skipSpace rest with
  | ')' :: rest => (e, some rest)
  | _ => (.andFail e "missing closing ')'", none)

/-- Continue behind a tree, unless the parse stopped inside it. -/
def treeThen (k : Expr → List Char → TreeParsed) : TreeParsed → TreeParsed
  | (e, some rest) => k e rest
  | (e, none) => (e, none)

mutual

def treeExpr : Nat → List Char → TreeParsed
  | 0, _ => (.exhausted, none)
  | n + 1, s => treeThen (treeExprLoop n) (treeTerm n s)

def treeExprLoop : Nat → Expr → List Char → TreeParsed
  | 0, left, _ => (.bin .add left .exhausted, none)
  | n + 1, left, s =>
    match skipSpace s with
    | [] => (left, some [])
    | c :: rest => match addOp c with
      | none => (left, some (c :: rest))
      | some op => match treeTerm n rest with
        | (right, some rest) => treeExprLoop n (.bin op left right) rest
        | (right, none) => (.bin op left right, none)

def treeTerm : Nat → List Char → TreeParsed
  | 0, _ => (.exhausted, none)
  | n + 1, s => treeThen (treeTermLoop n) (treeFactor n s)

def treeTermLoop : Nat → Expr → List Char → TreeParsed
  | 0, left, _ => (.bin .add left .exhausted, none)
  | n + 1, left, s =>
    match skipSpace s with
    | [] => (left, some [])
    | c :: rest => match mulOp c with
      | none => (left, some (c :: rest))
      | some op => match treeFactor n rest with
        | (right, some rest) => treeTermLoop n (.bin op left right) rest
        | (right, none) => (.bin op left right, none)

def treeFactor : Nat → List Char → TreeParsed
  | 0, _ => (.exhausted, none)
  | n + 1, s =>
    match skipSpace s with
    | [] => (.fail "unexpected end of expression", none)
    | c :: rest =>
      if c = '-' then (.neg (treeFactor n rest).1, (treeFactor n rest).2)
      else if c = '(' then treeThen treeClose (treeExpr n rest)
      else if c = '@' then treeRef rest
      else treeLiteral c rest

end

/-- The tree of a whole source text. -/
def parseTree (src : List Char) : Expr :=
  let src := skipSpace src
  match treeExpr (parseBudget src) src with
  | (e, none) => e
  | (e, some rest) => match skipSpace rest with
    | [] => e
    | rest => .andFail e (unexpected rest)

/-! ## The trees mean what the evaluator computes -/

/-- A stopped parse ends in an error leaf. -/
def Stuck (p : TreeParsed) : Prop := p.2 = none → p.1.stops = true

private theorem stuck_some (e : Expr) (rest : List Char) : Stuck (e, some rest) :=
  fun h => nomatch h

private theorem stuck_treeThen {tk : Expr → List Char → TreeParsed} {p : TreeParsed}
    (hk : ∀ e s, Stuck (tk e s)) (hp : Stuck p) : Stuck (treeThen tk p) := by
  obtain ⟨e, rest⟩ := p
  cases rest with
  | none => exact hp
  | some rest => exact hk e rest

private theorem stuck_treeClose (e : Expr) (s : List Char) : Stuck (treeClose e s) := by
  unfold treeClose
  split
  · exact stuck_some _ _
  · exact fun _ => rfl

private theorem stuck_treeRef (s : List Char) : Stuck (treeRef s) := by
  unfold treeRef
  dsimp only
  split
  · exact fun _ => rfl
  · exact stuck_some _ _

private theorem stuck_treeLiteral (c : Char) (s : List Char) : Stuck (treeLiteral c s) := by
  unfold treeLiteral
  split
  · split
    · exact stuck_some _ _
    · exact fun _ => rfl
  · split
    · split
      · exact stuck_some _ _
      · exact fun _ => rfl
    · exact fun _ => rfl

/-- One turn of an operator loop stops only in an error leaf. -/
private theorem stuck_turn {ops : Char → Option BinOp} {sub : List Char → TreeParsed}
    {loop : Expr → List Char → TreeParsed} (hs : ∀ s, Stuck (sub s))
    (hl : ∀ e s, Stuck (loop e s)) (left : Expr) (s : List Char) :
    Stuck (match skipSpace s with
      | [] => (left, some [])
      | c :: rest => match ops c with
        | none => (left, some (c :: rest))
        | some op => match sub rest with
          | (right, some rest) => loop (.bin op left right) rest
          | (right, none) => (.bin op left right, none)) := by
  cases skipSpace s with
  | nil => exact stuck_some _ _
  | cons c rest =>
    dsimp only
    cases ops c with
    | none => exact stuck_some _ _
    | some op =>
      dsimp only
      have hr := hs rest
      generalize sub rest = p at hr
      obtain ⟨right, rest'⟩ := p
      cases rest' with
      | none => exact hr
      | some rest' => exact hl _ _

/-- Every parse that stops does so in an error leaf. -/
theorem stuck_all (n : Nat) :
    (∀ s, Stuck (treeExpr n s)) ∧ (∀ e s, Stuck (treeExprLoop n e s)) ∧
    (∀ s, Stuck (treeTerm n s)) ∧ (∀ e s, Stuck (treeTermLoop n e s)) ∧
    (∀ s, Stuck (treeFactor n s)) := by
  induction n with
  | zero => exact ⟨fun _ _ => rfl, fun _ _ _ => rfl, fun _ _ => rfl, fun _ _ _ => rfl,
      fun _ _ => rfl⟩
  | succ n ih =>
    obtain ⟨hexpr, hexprLoop, hterm, htermLoop, hfactor⟩ := ih
    refine ⟨fun s => stuck_treeThen hexprLoop (hterm s), stuck_turn hterm hexprLoop,
      fun s => stuck_treeThen htermLoop (hfactor s), stuck_turn hfactor htermLoop, ?_⟩
    intro s
    unfold treeFactor
    split
    · exact fun _ => rfl
    · rename_i c rest _
      by_cases hm : c = '-'
      · rw [if_pos hm]
        exact fun h => hfactor rest h
      · by_cases hg : c = '('
        · rw [if_neg hm, if_pos hg]
          exact stuck_treeThen stuck_treeClose (hexpr rest)
        · by_cases ha : c = '@'
          · rw [if_neg hm, if_neg hg, if_pos ha]
            exact stuck_treeRef rest
          · rw [if_neg hm, if_neg hg, if_neg ha]
            exact stuck_treeLiteral c rest

/-! ## The budget suffices -/

/-- A finished parse of `s`: no leaf is missing and nothing was added behind it. -/
def Fits (s : List Char) (p : TreeParsed) : Prop :=
  p.1.Complete ∧ ∀ rest, p.2 = some rest → rest.length ≤ s.length

private theorem fits_some {e : Expr} {s rest : List Char} (he : e.Complete)
    (h : rest.length ≤ s.length) : Fits s (e, some rest) :=
  ⟨he, fun _ hr => Option.some.inj hr ▸ h⟩

private theorem fits_none {e : Expr} {s : List Char} (he : e.Complete) : Fits s (e, none) :=
  ⟨he, fun _ hr => nomatch hr⟩

/-- A continuation that parses on from a complete tree. -/
private def Consumes (k : Expr → List Char → TreeParsed) (bound : Nat) : Prop :=
  ∀ e s, e.Complete → s.length ≤ bound → Fits s (k e s)

private theorem Fits.mono {s t : List Char} {p : TreeParsed} (h : Fits s p)
    (hst : s.length ≤ t.length) : Fits t p :=
  ⟨h.1, fun rest hr => (h.2 rest hr).trans hst⟩

private theorem fits_treeThen {k : Expr → List Char → TreeParsed} {s : List Char}
    {p : TreeParsed} (hk : Consumes k s.length) (hp : Fits s p) : Fits s (treeThen k p) := by
  obtain ⟨e, rest⟩ := p
  cases rest with
  | none => exact hp
  | some rest =>
    have hlen := hp.2 rest rfl
    exact (hk e rest hp.1 hlen).mono hlen

private theorem length_skipSpace_le (s : List Char) : (skipSpace s).length ≤ s.length :=
  (List.dropWhile_suffix _).length_le

private theorem fits_treeClose (bound : Nat) : Consumes treeClose bound := by
  intro e s he _
  have hlen := length_skipSpace_le s
  unfold treeClose
  split
  · rename_i rest heq
    rw [heq] at hlen
    exact fits_some he (by rw [List.length_cons] at hlen; omega)
  · exact fits_none he

private theorem fits_treeRef (s : List Char) : Fits s (treeRef s) := by
  unfold treeRef
  dsimp only
  split
  · exact fits_none trivial
  · exact fits_some trivial (List.dropWhile_suffix _).length_le

private theorem fits_treeLiteral (c : Char) (s : List Char) :
    Fits (c :: s) (treeLiteral c s) := by
  unfold treeLiteral
  split
  · unfold parseString
    cases hd : s.dropWhile (· ≠ c) with
    | nil => exact fits_none trivial
    | cons d rest =>
      have hlen := (List.dropWhile_suffix (l := s) (· ≠ c)).length_le
      rw [hd, List.length_cons] at hlen
      exact fits_some trivial (by rw [List.length_cons]; omega)
  · split
    · have hlen := (List.dropWhile_suffix (l := c :: s) isNumberChar).length_le
      unfold parseNumber
      dsimp only
      split
      · rename_i heq
        rw [← (Prod.mk.inj heq).2]
        exact fits_some trivial hlen
      · exact fits_none trivial
    · exact fits_none trivial

/-- One turn of an operator loop consumes the operator, which pays for the next turn. -/
private theorem fits_turn {ops : Char → Option BinOp} {sub : List Char → TreeParsed}
    {loop : Expr → List Char → TreeParsed} {bound : Nat}
    (hs : ∀ s, s.length < bound → Fits s (sub s)) (hl : ∀ b < bound, Consumes loop b) :
    Consumes (fun left s => match skipSpace s with
      | [] => (left, some [])
      | c :: rest => match ops c with
        | none => (left, some (c :: rest))
        | some op => match sub rest with
          | (right, some rest) => loop (.bin op left right) rest
          | (right, none) => (.bin op left right, none)) bound := by
  intro left s he hb
  have hlen := length_skipSpace_le s
  dsimp only
  generalize skipSpace s = t at hlen
  cases t with
  | nil => exact fits_some he (Nat.zero_le _)
  | cons c rest =>
    dsimp only
    rw [List.length_cons] at hlen
    cases ops c with
    | none => exact fits_some he (by rw [List.length_cons]; omega)
    | some op =>
      dsimp only
      have hr := hs rest (by omega)
      generalize sub rest = p at hr
      obtain ⟨right, rest'⟩ := p
      cases rest' with
      | none => exact fits_none ⟨he, hr.1⟩
      | some rest' =>
        have hrest := hr.2 rest' rfl
        have he' : (Expr.bin op left right).Complete := ⟨he, hr.1⟩
        exact (hl rest.length (by omega) _ rest' he' hrest).mono (by omega)

/-- A budget of three for every character, and up to three more, is never used up. -/
private theorem fits_all (n : Nat) :
    (∀ s, 3 * s.length + 3 ≤ n → Fits s (treeExpr n s)) ∧
    (∀ b, 3 * b + 1 ≤ n → Consumes (treeExprLoop n) b) ∧
    (∀ s, 3 * s.length + 2 ≤ n → Fits s (treeTerm n s)) ∧
    (∀ b, 3 * b + 1 ≤ n → Consumes (treeTermLoop n) b) ∧
    (∀ s, 3 * s.length + 1 ≤ n → Fits s (treeFactor n s)) := by
  induction n with
  | zero =>
    exact ⟨fun _ h => by omega, fun _ h => by omega, fun _ h => by omega,
      fun _ h => by omega, fun _ h => by omega⟩
  | succ n ih =>
    obtain ⟨hexpr, hexprLoop, hterm, htermLoop, hfactor⟩ := ih
    refine ⟨fun s h => ?_, fun b h => ?_, fun s h => ?_, fun b h => ?_, fun s h => ?_⟩
    · exact fits_treeThen (hexprLoop _ (by omega)) (hterm s (by omega))
    · exact fits_turn (fun s hs => hterm s (by omega)) fun b' _ => hexprLoop b' (by omega)
    · exact fits_treeThen (htermLoop _ (by omega)) (hfactor s (by omega))
    · exact fits_turn (fun s hs => hfactor s (by omega)) fun b' _ => htermLoop b' (by omega)
    · have hlen := length_skipSpace_le s
      unfold treeFactor
      generalize skipSpace s = t at hlen
      cases t with
      | nil => exact fits_none trivial
      | cons c rest =>
        rw [List.length_cons] at hlen
        have hshort : rest.length ≤ s.length := by omega
        by_cases hm : c = '-'
        · simp only [hm, if_true]
          have hf := (hfactor rest (by omega)).mono hshort
          exact ⟨hf.1, hf.2⟩
        · by_cases hg : c = '('
          · simp only [if_neg hm, if_pos hg]
            exact (fits_treeThen (fits_treeClose _) (hexpr rest (by omega))).mono hshort
          · by_cases ha : c = '@'
            · simp only [if_neg hm, if_neg hg, if_pos ha]
              exact (fits_treeRef rest).mono hshort
            · simp only [if_neg hm, if_neg hg, if_neg ha]
              exact (fits_treeLiteral c rest).mono (by rw [List.length_cons]; omega)

/-- The tree of a source text has no missing leaf. -/
theorem complete_parseTree (src : List Char) : (parseTree src).Complete := by
  unfold parseTree
  dsimp only
  have hfit := (fits_all (parseBudget (skipSpace src))).1 (skipSpace src) (Nat.le_refl _)
  generalize treeExpr (parseBudget (skipSpace src)) (skipSpace src) = p at hfit
  obtain ⟨e, rest⟩ := p
  cases rest with
  | none => exact hfit.1
  | some rest =>
    dsimp only
    cases skipSpace rest with
    | nil => exact hfit.1
    | cons c rest => exact hfit.1

section Agreement

variable {resolve : String → Outcome Value}

/-- The value a tree parse stands for. A parse that stopped has no value. -/
def denote (resolve : String → Outcome Value) (p : TreeParsed) : Parsed :=
  p.1.eval resolve >>= fun v => match p.2 with
    | some rest => .ok (v, rest)
    | none => .panic outOfBudget

/-- What follows a stopped parse is never reached. -/
private theorem bind_of_stuck {α : Type} {e : Expr} (h : e.stops = true)
    (f g : Value → Outcome α) : (e.eval resolve >>= f) = e.eval resolve >>= g := by
  cases he : e.eval resolve with
  | ok v => exact absurd he (Expr.eval_ne_ok_of_stops resolve h v)
  | err m => rfl
  | panic r => rfl

/-- A continuation over values, started from a tree, agrees with one over trees. -/
def Agrees (resolve : String → Outcome Value) (k : Value → List Char → Parsed)
    (tk : Expr → List Char → TreeParsed) : Prop :=
  ∀ e s, (e.eval resolve >>= fun v => k v s) = denote resolve (tk e s)

private theorem denote_treeThen {k : Value → List Char → Parsed}
    {tk : Expr → List Char → TreeParsed} {p : TreeParsed} (hk : Agrees resolve k tk)
    (hp : Stuck p) :
    (denote resolve p >>= fun r => k r.1 r.2) = denote resolve (treeThen tk p) := by
  obtain ⟨e, rest⟩ := p
  cases rest with
  | none =>
    simp only [denote, treeThen, Outcome.bind_assoc, Outcome.panic_bind]
  | some rest =>
    simpa only [denote, treeThen, Outcome.bind_assoc, Outcome.ok_bind] using hk e rest

private theorem agrees_treeClose :
    Agrees resolve parseClose treeClose := by
  intro e s
  unfold parseClose treeClose
  generalize skipSpace s = t
  split
  · rfl
  · simp only [denote, Expr.eval, Outcome.bind_assoc, Outcome.err_bind]

private theorem parseLiteral_eq (c : Char) (s : List Char) :
    parseLiteral c s = denote resolve (treeLiteral c s) := by
  unfold parseLiteral treeLiteral
  split
  · cases parseString c s <;> rfl
  · split
    · obtain ⟨v, rest⟩ := parseNumber (c :: s)
      cases v <;> rfl
    · rfl

private theorem parseRef_eq (s : List Char) :
    parseRef resolve s = denote resolve (treeRef s) := by
  unfold parseRef treeRef
  dsimp only
  split
  · rfl
  · rfl

/-- One turn of an operator loop agrees when its parts do. -/
private theorem agrees_turn {ops : Char → Option BinOp} {sub : List Char → Parsed}
    {tsub : List Char → TreeParsed} {loop : Value → List Char → Parsed}
    {tloop : Expr → List Char → TreeParsed}
    (hs : ∀ s, sub s = denote resolve (tsub s)) (hst : ∀ s, Stuck (tsub s))
    (hl : Agrees resolve loop tloop) :
    Agrees resolve
      (fun left s => match skipSpace s with
        | [] => .ok (left, [])
        | c :: rest => match ops c with
          | none => .ok (left, c :: rest)
          | some op => do
            let (right, rest) ← sub rest
            let v ← applyOp op left right
            loop v rest)
      (fun left s => match skipSpace s with
        | [] => (left, some [])
        | c :: rest => match ops c with
          | none => (left, some (c :: rest))
          | some op => match tsub rest with
            | (right, some rest) => tloop (.bin op left right) rest
            | (right, none) => (.bin op left right, none)) := by
  intro e s
  dsimp only
  cases skipSpace s with
  | nil => rfl
  | cons c rest =>
    dsimp only
    cases ops c with
    | none => rfl
    | some op =>
      dsimp only
      have hr := hst rest
      rw [hs rest]
      generalize tsub rest = p at hr
      obtain ⟨right, rest'⟩ := p
      cases rest' with
      | none =>
        simp only [denote, Expr.eval, Outcome.bind_assoc, Outcome.panic_bind]
        congr 1
        funext v
        exact bind_of_stuck (hr rfl) _ _
      | some rest' =>
        rw [← hl]
        simp only [denote, Expr.eval, Outcome.bind_assoc, Outcome.ok_bind]

/-- The one-pass parser computes the value of the tree it would have read. -/
private theorem agrees_all (n : Nat) :
    (∀ s, parseExpr resolve n s = denote resolve (treeExpr n s)) ∧
    Agrees resolve (exprLoop resolve n) (treeExprLoop n) ∧
    (∀ s, parseTerm resolve n s = denote resolve (treeTerm n s)) ∧
    Agrees resolve (termLoop resolve n) (treeTermLoop n) ∧
    (∀ s, parseFactor resolve n s = denote resolve (treeFactor n s)) := by
  induction n with
  | zero =>
    refine ⟨fun _ => rfl, ?_, fun _ => rfl, ?_, fun _ => rfl⟩ <;>
    · intro e s
      simp only [exprLoop, termLoop, treeExprLoop, treeTermLoop, denote, Expr.eval,
        Outcome.bind_assoc, Outcome.panic_bind]
  | succ n ih =>
    obtain ⟨hexpr, hexprLoop, hterm, htermLoop, hfactor⟩ := ih
    obtain ⟨sexpr, _, sterm, _, sfactor⟩ := stuck_all n
    refine ⟨?_, agrees_turn hterm sterm hexprLoop, ?_, agrees_turn hfactor sfactor htermLoop, ?_⟩
    · intro s
      rw [parseExpr, treeExpr, hterm]
      exact denote_treeThen hexprLoop (sterm s)
    · intro s
      rw [parseTerm, treeTerm, hfactor]
      exact denote_treeThen htermLoop (sfactor s)
    · intro s
      unfold parseFactor treeFactor
      cases skipSpace s with
      | nil => rfl
      | cons c rest =>
        by_cases hm : c = '-'
        · simp only [hm, if_true]
          rw [hfactor]
          cases hrest : (treeFactor n rest).2 with
          | none =>
            simp only [denote, hrest, Expr.eval, Outcome.bind_assoc, Outcome.panic_bind]
            exact bind_of_stuck (sfactor rest hrest) _ _
          | some rest' =>
            simp only [denote, hrest, Expr.eval, Outcome.bind_assoc, Outcome.ok_bind,
              Outcome.pure_eq_ok]
        · by_cases hg : c = '('
          · simp only [if_neg hm, if_pos hg]
            rw [hexpr]
            exact denote_treeThen agrees_treeClose (sexpr rest)
          · by_cases ha : c = '@'
            · simp only [if_neg hm, if_neg hg, if_pos ha]
              exact parseRef_eq rest
            · simp only [if_neg hm, if_neg hg, if_neg ha]
              exact parseLiteral_eq c rest

/-- Evaluating a text is evaluating its tree. -/
theorem evalChars_eq_eval (src : List Char) :
    evalChars resolve src = (parseTree src).eval resolve := by
  unfold evalChars parseTree
  dsimp only
  rw [(agrees_all _).1]
  have hst := (stuck_all (parseBudget (skipSpace src))).1 (skipSpace src)
  generalize treeExpr (parseBudget (skipSpace src)) (skipSpace src) = p at hst
  obtain ⟨e, rest⟩ := p
  cases rest with
  | none =>
    cases he : e.eval resolve with
    | ok v => exact absurd he (Expr.eval_ne_ok_of_stops resolve (hst rfl) v)
    | err m => simp [denote, he]
    | panic r => simp [denote, he]
  | some rest =>
    simp only [denote, Outcome.bind_assoc, Outcome.ok_bind]
    cases skipSpace rest with
    | nil => cases e.eval resolve <;> rfl
    | cons c rest => rfl

end Agreement

end Konnekt.Scheduler
