import Konnekt.Go.Value

/-!
# The attribute expression evaluator

`evalExpr` parses and evaluates in one pass over the source text, as the code
does: every parse function returns the value of what it consumed together with
the text behind it. References are resolved through a callback, so that the
evaluator and the attribute table can be studied apart. The recursion carries a
budget; running out of it is modelled as a panic, the worst outcome there is.
-/

namespace Konnekt.Scheduler

open Go

/-! ## Coercions -/

/-- `toFloat`: the number an operand stands for in arithmetic. -/
def toFloat : Value → Except String Float64
  | .num f => .ok f
  | .int n | .int64 n => .ok (.fin n)
  | .bool b => .ok (.fin (if b then 1 else 0))
  | .str s => match parseFloat (trimSpace s) with
    | .ok f => .ok f
    | .error _ => .error ("cannot use " ++ quote s ++ " as a number")
  | .nil => .error "cannot use empty value as a number"
  | .other text => .error ("cannot use " ++ text ++ " as a number")

/-- `asStringIfText`: a string that does not read as a number. -/
def asStringIfText : Value → Option String
  | .str s => match parseFloat (trimSpace s) with
    | .ok _ => none
    | .error _ => some s
  | _ => none

/-- `toStr`: the text of a resolved value, whole numbers without a fraction. -/
def toStr : Value → String
  | .num f =>
    if f.eq (.fin (toInt64 f)) then toString (toInt64 f) else formatF f
  | .nil => ""
  | v => v.sprintV

/-! ## Operators -/

/-- The five binary operators. -/
inductive BinOp where
  | add | sub | mul | div | mod
  deriving DecidableEq, Repr

/-- The operators `parseExpr` loops over. -/
def addOp : Char → Option BinOp
  | '+' => some .add
  | '-' => some .sub
  | _ => none

/-- The operators `parseTerm` loops over. -/
def mulOp : Char → Option BinOp
  | '*' => some .mul
  | '/' => some .div
  | '%' => some .mod
  | _ => none

/-- Integer remainder; a zero divisor stops the program. -/
def intMod (a b : Int) : Outcome Int :=
  if b = 0 then .panic "runtime error: integer divide by zero" else .ok (a.tmod b)

/-- The arithmetic of an operator once both operands are numbers. -/
def arith : BinOp → Float64 → Float64 → Outcome Value
  | .add, a, b => .ok (.num (a.add b))
  | .sub, a, b => .ok (.num (a.sub b))
  | .mul, a, b => .ok (.num (a.mul b))
  | .div, a, b => if b.eq 0 then .err "division by zero" else .ok (.num (a.div b))
  | .mod, a, b =>
    if b.eq 0 then .err "modulo by zero"
    else (intMod (toInt64 a) (toInt64 b)).bind fun n => .ok (.num (.fin n))

/-- Both operands as numbers, the left one first, then the arithmetic. -/
def coerced (op : BinOp) (left right : Value) : Outcome Value := do
  let lf ← Outcome.ofExcept (toFloat left)
  let rf ← Outcome.ofExcept (toFloat right)
  arith op lf rf

/-- One operator step: `+` concatenates when either side is text. -/
def applyOp (op : BinOp) (left right : Value) : Outcome Value :=
  if op = .add then
    match asStringIfText left, asStringIfText right with
    | some ls, _ => .ok (.str (ls ++ toStr right))
    | none, some rs => .ok (.str (toStr left ++ rs))
    | none, none => coerced op left right
  else coerced op left right

def negate (v : Value) : Outcome Value := do
  let f ← Outcome.ofExcept (toFloat v)
  return .num f.neg

/-! ## Lexical parts -/

def skipSpace : List Char → List Char :=
  List.dropWhile fun c => c == ' ' || c == '\t' || c == '\n'

def isAlpha (c : Char) : Bool := ('a' ≤ c && c ≤ 'z') || ('A' ≤ c && c ≤ 'Z')

def isDigit (c : Char) : Bool := '0' ≤ c && c ≤ '9'

/-- The characters `parseRef` takes into a name. -/
def isRefChar (c : Char) : Bool := c == '_' || c == '.' || isAlpha c || isDigit c

def isNumberChar (c : Char) : Bool := isDigit c || c == '.'

/-- The character a single byte converts to, which is what an error shows of the rest. -/
def leadByte (c : Char) : Char :=
  let n := c.toNat
  if n < 0x80 then c
  else if n < 0x800 then Char.ofNat (0xC0 + n / 0x40)
  else if n < 0x10000 then Char.ofNat (0xE0 + n / 0x1000)
  else Char.ofNat (0xF0 + n / 0x40000)

def unexpected (s : List Char) : String :=
  "unexpected " ++ quote (String.ofList s) ++ " in expression"

/-- `parseNumber`, from the first character of the number. -/
def parseNumber (s : List Char) : Except String Value × List Char :=
  let text := String.ofList (s.takeWhile isNumberChar)
  (match parseFloat text with
    | .ok f => .ok (.num f)
    | .error _ => .error ("invalid number " ++ quote text),
   s.dropWhile isNumberChar)

/-- `parseString`, behind the opening quote. -/
def parseString (q : Char) (s : List Char) : Option (Value × List Char) :=
  match s.dropWhile (· ≠ q) with
  | [] => none
  | _ :: rest => some (.str (String.ofList (s.takeWhile (· ≠ q))), rest)

/-! ## The recursive descent -/

def outOfBudget : String := "budget exhausted"

/-- A parse function's result: the value and the text behind what it consumed. -/
abbrev Parsed := Outcome (Value × List Char)

/-- The branches of `parseFactor` for quoted strings, numbers and anything else. -/
def parseLiteral (c : Char) (rest : List Char) : Parsed :=
  if c = '"' ∨ c = '\'' then
    match parseString c rest with
    | some r => .ok r
    | none => .err "unterminated string literal"
  else if isNumberChar c then
    match parseNumber (c :: rest) with
    | (.ok v, rest) => .ok (v, rest)
    | (.error m, _) => .err m
  else .err (unexpected [leadByte c])

/-- The closing parenthesis behind a group. -/
def parseClose (v : Value) (s : List Char) : Parsed :=
  match skipSpace s with
  | ')' :: rest => .ok (v, rest)
  | _ => .err "missing closing ')'"

section Parser

variable (resolve : String → Outcome Value)

/-- `parseRef`, behind the `@`. -/
def parseRef (s : List Char) : Parsed :=
  let name := s.takeWhile isRefChar
  if name.isEmpty then .err "empty attribute reference"
  else do
    let v ← resolve (String.ofList name)
    return (v, s.dropWhile isRefChar)

mutual

def parseExpr : Nat → List Char → Parsed
  | 0, _ => .panic outOfBudget
  | n + 1, s => do
    let (left, rest) ← parseTerm n s
    exprLoop n left rest

/-- The loop of `parseExpr` over `+` and `-`. -/
def exprLoop : Nat → Value → List Char → Parsed
  | 0, _, _ => .panic outOfBudget
  | n + 1, left, s =>
    match skipSpace s with
    | [] => .ok (left, [])
    | c :: rest => match addOp c with
      | none => .ok (left, c :: rest)
      | some op => do
        let (right, rest) ← parseTerm n rest
        let v ← applyOp op left right
        exprLoop n v rest

def parseTerm : Nat → List Char → Parsed
  | 0, _ => .panic outOfBudget
  | n + 1, s => do
    let (left, rest) ← parseFactor n s
    termLoop n left rest

/-- The loop of `parseTerm` over `*`, `/` and `%`. -/
def termLoop : Nat → Value → List Char → Parsed
  | 0, _, _ => .panic outOfBudget
  | n + 1, left, s =>
    match skipSpace s with
    | [] => .ok (left, [])
    | c :: rest => match mulOp c with
      | none => .ok (left, c :: rest)
      | some op => do
        let (right, rest) ← parseFactor n rest
        let v ← applyOp op left right
        termLoop n v rest

def parseFactor : Nat → List Char → Parsed
  | 0, _ => .panic outOfBudget
  | n + 1, s =>
    match skipSpace s with
    | [] => .err "unexpected end of expression"
    | c :: rest =>
      if c = '-' then do
        let (v, rest) ← parseFactor n rest
        let f ← negate v
        return (f, rest)
      else if c = '(' then do
        let (v, rest) ← parseExpr n rest
        parseClose v rest
      else if c = '@' then parseRef resolve rest
      else parseLiteral c rest

end

/-- The budget that suffices for a source of a given length. -/
def parseBudget (s : List Char) : Nat := 3 * s.length + 3

/-- `evalExpr` over a list of characters. -/
def evalChars (src : List Char) : Outcome Value := do
  let src := skipSpace src
  let (v, rest) ← parseExpr resolve (parseBudget src) src
  match skipSpace rest with
  | [] => return v
  | rest => .err (unexpected rest)

/-- `evalExpr`. -/
def evalExpr (src : String) : Outcome Value := evalChars resolve src.toList

end Parser

end Konnekt.Scheduler
