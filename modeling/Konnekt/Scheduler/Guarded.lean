import Mathlib.Data.Finset.Basic
import Konnekt.Scheduler.ExprTree

/-!
# Attribute resolution with its guard set

`AttrScope.visiting` is one set for all the calls nested in a resolution: a call adds a
name before it evaluates the expression behind it and deletes it when it returns, with
whatever result. Here the set is threaded through the evaluator as the code does it.
-/

namespace Konnekt.Scheduler

open Go

/-- A call that reads and writes the guard set. -/
def Guarded (α : Type) : Type := Finset String → Outcome α × Finset String

namespace Guarded

variable {α β : Type}

/-- A failure leaves the set as it is at that moment. -/
def bind (x : Guarded α) (f : α → Guarded β) : Guarded β := fun visiting =>
  match x visiting with
  | (.ok a, visiting) => f a visiting
  | (.err m, visiting) => (.err m, visiting)
  | (.panic r, visiting) => (.panic r, visiting)

instance : Monad Guarded where
  pure a := fun visiting => (.ok a, visiting)
  bind := bind

/-- A call that has nothing to do with the set. -/
def lift (x : Outcome α) : Guarded α := fun visiting => (x, visiting)

section Parser

variable (resolve : String → Guarded Value)

/-- `parseRef`, behind the `@`. -/
def parseRef (s : List Char) : Guarded (Value × List Char) :=
  let name := s.takeWhile isRefChar
  if name.isEmpty then lift (.err "empty attribute reference")
  else do
    let v ← resolve (String.ofList name)
    return (v, s.dropWhile isRefChar)

mutual

def parseExpr : Nat → List Char → Guarded (Value × List Char)
  | 0, _ => lift (.panic outOfBudget)
  | n + 1, s => do
    let (left, rest) ← parseTerm n s
    exprLoop n left rest

/-- The loop of `parseExpr` over `+` and `-`. -/
def exprLoop : Nat → Value → List Char → Guarded (Value × List Char)
  | 0, _, _ => lift (.panic outOfBudget)
  | n + 1, left, s =>
    match skipSpace s with
    | [] => return (left, [])
    | c :: rest => match addOp c with
      | none => return (left, c :: rest)
      | some op => do
        let (right, rest) ← parseTerm n rest
        let v ← lift (applyOp op left right)
        exprLoop n v rest

def parseTerm : Nat → List Char → Guarded (Value × List Char)
  | 0, _ => lift (.panic outOfBudget)
  | n + 1, s => do
    let (left, rest) ← parseFactor n s
    termLoop n left rest

/-- The loop of `parseTerm` over `*`, `/` and `%`. -/
def termLoop : Nat → Value → List Char → Guarded (Value × List Char)
  | 0, _, _ => lift (.panic outOfBudget)
  | n + 1, left, s =>
    match skipSpace s with
    | [] => return (left, [])
    | c :: rest => match mulOp c with
      | none => return (left, c :: rest)
      | some op => do
        let (right, rest) ← parseFactor n rest
        let v ← lift (applyOp op left right)
        termLoop n v rest

def parseFactor : Nat → List Char → Guarded (Value × List Char)
  | 0, _ => lift (.panic outOfBudget)
  | n + 1, s =>
    match skipSpace s with
    | [] => lift (.err "unexpected end of expression")
    | c :: rest =>
      if c = '-' then do
        let (v, rest) ← parseFactor n rest
        let f ← lift (negate v)
        return (f, rest)
      else if c = '(' then do
        let (v, rest) ← parseExpr n rest
        lift (parseClose v rest)
      else if c = '@' then parseRef resolve rest
      else lift (parseLiteral c rest)

end

/-- `evalExpr` over a list of characters. -/
def evalChars (src : List Char) : Guarded Value := do
  let src := skipSpace src
  let (v, rest) ← parseExpr resolve (parseBudget src) src
  match skipSpace rest with
  | [] => return v
  | rest => lift (.err (unexpected rest))

/-- `resolveCustomValue`. -/
def resolveCustomValue (raw : String) : Guarded Value :=
  match customBody raw with
  | some body => evalChars resolve body
  | none => match parseFloat (trimSpace raw) with
    | .ok f => return .num f
    | .error _ => return .str raw

end Parser

/-- The error of a reference to a name whose evaluation is still open. -/
def cycleError (name : String) : String := "attribute cycle at @" ++ name

/-- `Resolve`, in so many nested calls at most. -/
def resolve (scope : AttrScope) : Nat → String → Guarded Value
  | 0, _ => lift (.panic outOfBudget)
  | n + 1, name => match scope.custom.lookup name with
    | some expr => fun visiting =>
      if name ∈ visiting then (.err (cycleError name), visiting)
      else
        let (result, visiting) :=
          resolveCustomValue (resolve scope n) expr (insert name visiting)
        -- The deferred delete runs for a value, an error and a panic alike.
        (result, visiting.erase name)
    | none => lift (.ofExcept (readBuiltinAttribute scope.deps scope.serverID name))

end Guarded

/-- `AttrScope.Resolve` on the guard set as it is. -/
def AttrScope.resolveGuarded (scope : AttrScope) (name : String) : Guarded Value :=
  Guarded.resolve scope (resolveBudget scope) name

/-! ## What evaluation reaches -/

/-- Evaluating the tree, with the evaluation of the names of a set still open, reaches a reference
to one of them: through the references it evaluates, from the left, and no further than the first
that fails. -/
inductive ReachesOpen (scope : AttrScope) : Finset String → Expr → String → Prop
  | here {visiting : Finset String} {name : String} (hcustom : scope.isCustom name = true)
      (hopen : name ∈ visiting) : ReachesOpen scope visiting (.ref name) name
  | ref {visiting : Finset String} {name raw a : String} {body : List Char}
      (hraw : scope.custom.lookup name = some raw) (hclosed : name ∉ visiting)
      (hbody : customBody raw = some body)
      (h : ReachesOpen scope (insert name visiting) (parseTree body) a) :
      ReachesOpen scope visiting (.ref name) a
  | neg {visiting : Finset String} {e : Expr} {a : String} (h : ReachesOpen scope visiting e a) :
      ReachesOpen scope visiting (.neg e) a
  | andFail {visiting : Finset String} {e : Expr} {m a : String}
      (h : ReachesOpen scope visiting e a) : ReachesOpen scope visiting (.andFail e m) a
  | left {visiting : Finset String} {op : BinOp} {l r : Expr} {a : String}
      (h : ReachesOpen scope visiting l a) : ReachesOpen scope visiting (.bin op l r) a
  | right {visiting : Finset String} {op : BinOp} {l r : Expr} {lv : Value} {a : String}
      (hl : l.eval (fun name => (scope.resolveGuarded name visiting).1) = .ok lv)
      (h : ReachesOpen scope visiting r a) : ReachesOpen scope visiting (.bin op l r) a

end Konnekt.Scheduler
