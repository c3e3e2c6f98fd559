import Konnekt.Go.Map
import Konnekt.Go.Value

/-!
# Parsed JSON in the browser

A configuration is plain data to the editor. Where the code uses one of its values
as the name of a property, the value is turned into text first, and a property is
looked up along the prototype chain.
-/

namespace Js

open Go

/-- A value that `JSON.parse` can give. -/
inductive Json where
  | null
  | bool (b : Bool)
  | num (f : Float64)
  | str (s : String)
  | arr (elems : List Json)
  | obj (fields : List (String × Json))

/-! ## Text -/

/-- The exponent form of a number. -/
def layoutExponent (d : Decimal) : List Char :=
  let mantissa := match d.digits with
    | [] => ['0']
    | [a] => [digitChar a]
    | a :: rest => digitChar a :: '.' :: rest.map digitChar
  let e := d.point - 1
  mantissa ++ ['e', if e < 0 then '-' else '+'] ++ (toString e.natAbs).toList

/-- `Number::toString`. -/
def numberText : Float64 → String
  | .fin q =>
    let d := decimalOf q
    signed q (if -6 < d.point ∧ d.point ≤ 21 then layoutF d else layoutExponent d)
  | .inf neg => if neg then "-Infinity" else "Infinity"
  | .nan => "NaN"

mutual

/-- `ToPropertyKey` of a value; an object with a `toString` of its own has no text. -/
def Json.key : Json → Option String
  | .null => some "null"
  | .bool b => some (if b then "true" else "false")
  | .num f => some (numberText f)
  | .str s => some s
  | .arr elems => (joinKeys elems).map fun texts => String.intercalate "," texts
  | .obj fields => if (fields.lookup "toString").isSome then none else some "[object Object]"

/-- The texts `Array.prototype.join` puts together: an absent element has none. -/
def joinKeys : List Json → Option (List String)
  | [] => some []
  | .null :: rest => (joinKeys rest).map fun texts => "" :: texts
  | v :: rest => do
    let text ← v.key
    let texts ← joinKeys rest
    return text :: texts

end

/-- Values that count as false. -/
def Json.falsy : Json → Bool
  | .null => true
  | .bool b => !b
  | .num f => f == .nan || f == 0
  | .str s => s == ""
  | .arr _ | .obj _ => false

/-- The properties that every object literal inherits. -/
def objectPrototype : List String :=
  ["constructor", "__defineGetter__", "__defineSetter__", "hasOwnProperty", "__lookupGetter__",
    "__lookupSetter__", "isPrototypeOf", "propertyIsEnumerable", "toString", "valueOf", "__proto__",
    "toLocaleString"]

/-! ## In Go -/

mutual

/-- The `%v` text of the decoded value. -/
def Json.goText : Json → String
  | .null => "<nil>"
  | .bool b => if b then "true" else "false"
  | .num f => formatG f
  | .str s => s
  | .arr elems => "[" ++ String.intercalate " " (goElems elems) ++ "]"
  | .obj fields =>
    let entries := (goFields fields).mergeSort fun a b => decide (a.1 ≤ b.1)
    "map[" ++ String.intercalate " " (entries.map fun e => e.1 ++ ":" ++ e.2) ++ "]"

def goElems : List Json → List String
  | [] => []
  | v :: rest => v.goText :: goElems rest

def goFields : List (String × Json) → List (String × String)
  | [] => []
  | (name, v) :: rest => (name, v.goText) :: goFields rest

end

/-- A value after `JSON.stringify` and decoding into an `interface{}`. -/
def Json.toValue : Json → Value
  | .null => .nil
  | .bool b => .bool b
  | .num (.fin q) => .num (.fin q)
  | .num _ => .nil
  | .str s => .str s
  | v => .other v.goText

end Js
