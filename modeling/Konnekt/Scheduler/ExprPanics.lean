import Mathlib.Data.List.Perm.Subperm
import Konnekt.Scheduler.ExprTree

/-!
# When evaluating an expression stops the program

The only step of the evaluator that can panic is the integer remainder. The
remainders an evaluation reaches are described on the trees, through nested
custom attributes; evaluation panics exactly when one of them has a divisor that
truncates to zero.
-/

namespace Konnekt.Scheduler

open Go

/-! ## One operator step -/

/-- An integer remainder panics exactly for the divisor zero. -/
theorem panics_intMod {α : Type} (a b : Int) (f : Int → α) :
    ((intMod a b).bind fun n => .ok (f n)).panics = true ↔ b = 0 := by
  unfold intMod
  by_cases hz : b = 0
  · simp [hz, Outcome.bind, Outcome.panics]
  · simp [hz, Outcome.bind, Outcome.panics]

/-- Only a remainder whose divisor truncates to zero panics. -/
theorem panics_arith (op : BinOp) (a b : Float64) :
    (arith op a b).panics = true ↔ op = .mod ∧ b.eq 0 = false ∧ toInt64 b = 0 := by
  cases op with
  | add => simp [arith, Outcome.panics]
  | sub => simp [arith, Outcome.panics]
  | mul => simp [arith, Outcome.panics]
  | div =>
    cases hb : b.eq 0 with
    | false => simp [arith, hb, Outcome.panics]
    | true => simp [arith, hb, Outcome.panics]
  | mod =>
    cases hb : b.eq 0 with
    | true => simp [arith, hb, Outcome.panics]
    | false => simp [arith, hb, panics_intMod]

/-- The operands a remainder is taken of, with a divisor past the zero check. -/
def ModOperands (op : BinOp) (left right : Value) (d : Float64) : Prop :=
  op = .mod ∧ (∃ a, toFloat left = .ok a) ∧ toFloat right = .ok d ∧ d.eq 0 = false

theorem panics_coerced (op : BinOp) (left right : Value) :
    (coerced op left right).panics = true ↔
      ∃ d, ModOperands op left right d ∧ toInt64 d = 0 := by
  unfold coerced ModOperands
  cases hl : toFloat left with
  | error m => simp [Outcome.ofExcept, Outcome.panics]
  | ok a =>
    cases hr : toFloat right with
    | error m => simp [Outcome.ofExcept, Outcome.panics]
    | ok b =>
      simp only [Outcome.ofExcept, Outcome.ok_bind, panics_arith]
      constructor
      · rintro ⟨hop, hb, hz⟩
        exact ⟨b, ⟨hop, ⟨a, rfl⟩, rfl, hb⟩, hz⟩
      · rintro ⟨d, ⟨hop, -, hd, hd0⟩, hz⟩
        cases hd
        exact ⟨hop, hd0, hz⟩

/-- Concatenation never panics, so an operator step does so only in its arithmetic. -/
theorem panics_applyOp (op : BinOp) (left right : Value) :
    (applyOp op left right).panics = true ↔
      ∃ d, ModOperands op left right d ∧ toInt64 d = 0 := by
  by_cases hop : op = .add
  · subst hop
    have hnone : ¬ ∃ d, ModOperands .add left right d ∧ toInt64 d = 0 := by
      rintro ⟨d, ⟨h, -⟩, -⟩
      cases h
    unfold applyOp
    cases asStringIfText left with
    | some ls => simpa [Outcome.panics] using hnone
    | none =>
      cases asStringIfText right with
      | some rs => simpa [Outcome.panics] using hnone
      | none => exact panics_coerced .add left right
  · rw [applyOp, if_neg hop]
    exact panics_coerced op left right

theorem panics_negate (v : Value) : (negate v).panics = false := by
  unfold negate
  cases toFloat v with
  | ok f => rfl
  | error m => rfl

/-! ## Reached remainders -/

/-- `Resolve` while the names of `visiting` are being evaluated. -/
def resolveUnder (scope : AttrScope) (visiting : List String) (name : String) :
    Outcome Value :=
  resolveIn scope (resolveBudget scope - visiting.length) visiting name

/-- Evaluating the tree with the names of `visiting` open takes a remainder by `d`,
which is a number the check against zero let through. -/
inductive ReachesMod (scope : AttrScope) : List String → Expr → Float64 → Prop
  | here {visiting : List String} {l r : Expr} {lv rv : Value} {d : Float64}
      (hl : l.eval (resolveUnder scope visiting) = .ok lv)
      (hr : r.eval (resolveUnder scope visiting) = .ok rv)
      (hd : ModOperands .mod lv rv d) : ReachesMod scope visiting (.bin .mod l r) d
  | neg {visiting : List String} {e : Expr} {d : Float64} (h : ReachesMod scope visiting e d) :
      ReachesMod scope visiting (.neg e) d
  | andFail {visiting : List String} {e : Expr} {m : String} {d : Float64}
      (h : ReachesMod scope visiting e d) : ReachesMod scope visiting (.andFail e m) d
  | left {visiting : List String} {op : BinOp} {l r : Expr} {d : Float64}
      (h : ReachesMod scope visiting l d) : ReachesMod scope visiting (.bin op l r) d
  | right {visiting : List String} {op : BinOp} {l r : Expr} {lv : Value} {d : Float64}
      (hl : l.eval (resolveUnder scope visiting) = .ok lv)
      (h : ReachesMod scope visiting r d) : ReachesMod scope visiting (.bin op l r) d
  | ref {visiting : List String} {name raw : String} {body : List Char} {d : Float64}
      (hraw : scope.custom.lookup name = some raw) (hopen : name ∉ visiting)
      (hbody : customBody raw = some body)
      (h : ReachesMod scope (name :: visiting) (parseTree body) d) :
      ReachesMod scope visiting (.ref name) d

/-- The names of `visiting` are distinct custom attributes of the scope. -/
structure Open (scope : AttrScope) (visiting : List String) : Prop where
  nodup : visiting.Nodup
  custom : ∀ name ∈ visiting, name ∈ scope.custom.keys

theorem Open.nil (scope : AttrScope) : Open scope [] := ⟨List.nodup_nil, by simp⟩

theorem Open.cons {scope : AttrScope} {visiting : List String} {name raw : String}
    (h : Open scope visiting) (hraw : scope.custom.lookup name = some raw)
    (hopen : name ∉ visiting) : Open scope (name :: visiting) := by
  refine ⟨List.nodup_cons.2 ⟨hopen, h.nodup⟩, fun other hother => ?_⟩
  rcases List.mem_cons.1 hother with rfl | hmem
  · exact AList.lookup_isSome.1 (by rw [hraw]; rfl)
  · exact h.custom other hmem

/-- Open evaluations never outnumber the custom attributes. -/
theorem Open.length_lt_budget {scope : AttrScope} {visiting : List String}
    (h : Open scope visiting) : visiting.length < resolveBudget scope := by
  have hsub : visiting.Subperm scope.custom.keys :=
    List.subperm_of_subset h.nodup fun name hmem => h.custom name hmem
  have hlen := hsub.length_le
  rw [AList.keys, List.keys, List.length_map] at hlen
  exact Nat.lt_succ_of_le hlen

/-- What a reference does: look the name up, and evaluate its text with the name open. -/
theorem resolveUnder_eq {scope : AttrScope} {visiting : List String}
    (h : Open scope visiting) (name : String) :
    resolveUnder scope visiting name =
      match scope.custom.lookup name with
      | some raw =>
        if name ∈ visiting then .err ("attribute cycle at @" ++ name)
        else resolveCustomValue (resolveUnder scope (name :: visiting)) raw
      | none => .ofExcept (readBuiltinAttribute scope.deps scope.serverID name) := by
  have hlt := h.length_lt_budget
  obtain ⟨n, hn⟩ : ∃ n, resolveBudget scope - visiting.length = n + 1 :=
    ⟨resolveBudget scope - visiting.length - 1, by omega⟩
  have hnext : resolveBudget scope - (visiting.length + 1) = n := by omega
  rw [resolveUnder, hn, resolveIn]
  have hfun : resolveUnder scope (name :: visiting) = resolveIn scope n (name :: visiting) := by
    funext other
    rw [resolveUnder, List.length_cons, hnext]
  rewrite [hfun]
  rfl

section Panics

variable {scope : AttrScope}

/-- The panics of a tree, given those of its references. -/
private theorem panics_eval {visiting : List String}
    (href : ∀ name, (resolveUnder scope visiting name).panics = true ↔
      ∃ d, ReachesMod scope visiting (.ref name) d ∧ toInt64 d = 0)
    {e : Expr} (hc : e.Complete) :
    (e.eval (resolveUnder scope visiting)).panics = true ↔
      ∃ d, ReachesMod scope visiting e d ∧ toInt64 d = 0 := by
  induction e with
  | lit v =>
    refine iff_of_false (by simp [Expr.eval, Outcome.panics]) ?_
    rintro ⟨d, h, -⟩
    cases h
  | ref name => exact href name
  | neg e ih =>
    rw [Expr.eval, Outcome.panics_bind, ih hc]
    constructor
    · rintro (⟨d, hd, hz⟩ | ⟨v, -, hv⟩)
      · exact ⟨d, .neg hd, hz⟩
      · rw [panics_negate] at hv
        cases hv
    · rintro ⟨d, hd, hz⟩
      cases hd with
      | neg hd => exact .inl ⟨d, hd, hz⟩
  | bin op l r ihl ihr =>
    simp only [Expr.eval, Outcome.panics_bind, ihl hc.1, ihr hc.2, panics_applyOp]
    constructor
    · rintro (⟨d, hd, hz⟩ | ⟨lv, hl, ⟨d, hd, hz⟩ | ⟨rv, hr, d, hd, hz⟩⟩)
      · exact ⟨d, .left hd, hz⟩
      · exact ⟨d, .right hl hd, hz⟩
      · obtain rfl : op = .mod := hd.1
        exact ⟨d, .here hl hr hd, hz⟩
    · rintro ⟨d, hd, hz⟩
      cases hd with
      | here hl hr hd => exact .inr ⟨_, hl, .inr ⟨_, hr, d, hd, hz⟩⟩
      | left hd => exact .inl ⟨d, hd, hz⟩
      | right hl hd => exact .inr ⟨_, hl, .inl ⟨d, hd, hz⟩⟩
  | fail m =>
    refine iff_of_false (by simp [Expr.eval, Outcome.panics]) ?_
    rintro ⟨d, h, -⟩
    cases h
  | andFail e m ih =>
    rw [Expr.eval, Outcome.panics_bind, ih hc]
    constructor
    · rintro (⟨d, hd, hz⟩ | ⟨v, -, hv⟩)
      · exact ⟨d, .andFail hd, hz⟩
      · cases hv
    · rintro ⟨d, hd, hz⟩
      cases hd with
      | andFail hd => exact .inl ⟨d, hd, hz⟩
  | exhausted => exact hc.elim

/-- A reference panics when the expression behind it does. Each nested evaluation opens
one more name, and there are only so many. -/
private theorem panics_resolveUnder (n : Nat) {visiting : List String}
    (hopen : Open scope visiting) (hn : resolveBudget scope - visiting.length = n)
    (name : String) :
    (resolveUnder scope visiting name).panics = true ↔
      ∃ d, ReachesMod scope visiting (.ref name) d ∧ toInt64 d = 0 := by
  induction n generalizing visiting name with
  | zero =>
    have hlt := hopen.length_lt_budget
    omega
  | succ n ih =>
    rw [resolveUnder_eq hopen]
    cases hraw : scope.custom.lookup name with
    | none =>
      refine iff_of_false (by simp) ?_
      rintro ⟨d, h, -⟩
      cases h with
      | ref hraw' => rw [hraw] at hraw'; cases hraw'
    | some raw =>
      by_cases hmem : name ∈ visiting
      · refine iff_of_false (by simp [hmem, Outcome.panics]) ?_
        rintro ⟨d, h, -⟩
        cases h with
        | ref _ hnot => exact hnot hmem
      · simp only [if_neg hmem]
        have hopen' := hopen.cons hraw hmem
        have hn' : resolveBudget scope - (name :: visiting).length = n := by
          rw [List.length_cons]
          omega
        unfold resolveCustomValue
        cases hbody : customBody raw with
        | some body =>
          simp only [evalChars_eq_eval]
          rw [panics_eval (fun other => ih hopen' hn' other) (complete_parseTree body)]
          constructor
          · rintro ⟨d, hd, hz⟩
            exact ⟨d, .ref hraw hmem hbody hd, hz⟩
          · rintro ⟨d, hd, hz⟩
            cases hd with
            | ref hraw' _ hbody' hd =>
              rw [hraw] at hraw'
              cases hraw'
              rw [hbody] at hbody'
              cases hbody'
              exact ⟨d, hd, hz⟩
        | none =>
          refine iff_of_false ?_ ?_
          · dsimp only
            cases parseFloat (trimSpace raw) <;> simp [Outcome.panics]
          · rintro ⟨d, h, -⟩
            cases h with
            | ref hraw' _ hbody' _ =>
              rw [hraw] at hraw'
              cases hraw'
              rw [hbody] at hbody'
              cases hbody'

end Panics

/-- Evaluation panics exactly when it reaches a remainder whose divisor, let through by
the check against zero, truncates to zero. -/
theorem panics_evalExpr (scope : AttrScope) (src : String) :
    (evalExpr scope.resolve src).panics = true ↔
      ∃ d, ReachesMod scope [] (parseTree src.toList) d ∧ toInt64 d = 0 := by
  have hres : scope.resolve = resolveUnder scope [] := rfl
  rw [evalExpr, evalChars_eq_eval, hres]
  exact panics_eval (panics_resolveUnder _ (.nil scope) rfl) (complete_parseTree _)

/-! ## The grammar of attribute expressions

What a text of the language looks like and which tree it stands for: unary minus binds
tightest, then `*`, `/` and `%`, then `+` and `-`, both from the left. Any spaces may
stand between two tokens. -/

/-- The characters `skipSpace` skips. -/
def isBlank (c : Char) : Bool := c == ' ' || c == '\t' || c == '\n'

def Spaces (s : List Char) : Prop := ∀ c ∈ s, isBlank c = true

/-- The three rules of the grammar. -/
inductive Level where
  | expr | term | factor
  deriving DecidableEq, Repr

/-- A text that the grammar reads as this tree, from the first character of its first token to the
last of its last. -/
inductive Prints : Level → Expr → List Char → Prop
  | num {f : Float64} {text : List Char} (hne : text ≠ [])
      (hchars : ∀ c ∈ text, isNumberChar c = true) (hf : parseFloat (String.ofList text) = .ok f) :
      Prints .factor (.lit (.num f)) text
  | str {q : Char} {text : List Char} (hq : q = '"' ∨ q = '\'') (htext : q ∉ text) :
      Prints .factor (.lit (.str (String.ofList text))) (q :: (text ++ [q]))
  | ref {name : List Char} (hne : name ≠ []) (hchars : ∀ c ∈ name, isRefChar c = true) :
      Prints .factor (.ref (String.ofList name)) ('@' :: name)
  | neg {e : Expr} {sp body : List Char} (hsp : Spaces sp) (h : Prints .factor e body) :
      Prints .factor (.neg e) ('-' :: (sp ++ body))
  | paren {e : Expr} {sp body sp' : List Char} (hsp : Spaces sp) (h : Prints .expr e body)
      (hsp' : Spaces sp') : Prints .factor e ('(' :: (sp ++ body ++ sp' ++ [')']))
  | factor {e : Expr} {body : List Char} (h : Prints .factor e body) : Prints .term e body
  | mul {c : Char} {op : BinOp} {l r : Expr} {lbody rbody sp sp' : List Char}
      (hop : mulOp c = some op) (hl : Prints .term l lbody) (hsp : Spaces sp) (hsp' : Spaces sp')
      (hr : Prints .factor r rbody) :
      Prints .term (.bin op l r) (lbody ++ sp ++ c :: (sp' ++ rbody))
  | term {e : Expr} {body : List Char} (h : Prints .term e body) : Prints .expr e body
  | add {c : Char} {op : BinOp} {l r : Expr} {lbody rbody sp sp' : List Char}
      (hop : addOp c = some op) (hl : Prints .expr l lbody) (hsp : Spaces sp) (hsp' : Spaces sp')
      (hr : Prints .term r rbody) :
      Prints .expr (.bin op l r) (lbody ++ sp ++ c :: (sp' ++ rbody))

/-- A source text that is an expression. -/
def Printing (e : Expr) (src : List Char) : Prop :=
  ∃ sp body sp', src = sp ++ body ++ sp' ∧ Spaces sp ∧ Spaces sp' ∧ Prints .expr e body

/-- Evaluating the tree takes a remainder whose divisor is not zero but truncates to it, or
resolves a reference that stops the program. -/
inductive Crashes (resolve : String → Outcome Value) : Expr → Prop
  | ref {name : String} (h : (resolve name).panics = true) : Crashes resolve (.ref name)
  | here {l r : Expr} {lv rv : Value} {d : Float64} (hl : l.eval resolve = .ok lv)
      (hr : r.eval resolve = .ok rv) (hd : ModOperands .mod lv rv d) (hzero : toInt64 d = 0) :
      Crashes resolve (.bin .mod l r)
  | neg {e : Expr} (h : Crashes resolve e) : Crashes resolve (.neg e)
  | andFail {e : Expr} {m : String} (h : Crashes resolve e) : Crashes resolve (.andFail e m)
  | left {op : BinOp} {l r : Expr} (h : Crashes resolve l) : Crashes resolve (.bin op l r)
  | right {op : BinOp} {l r : Expr} {lv : Value} (hl : l.eval resolve = .ok lv)
      (h : Crashes resolve r) : Crashes resolve (.bin op l r)

end Konnekt.Scheduler
