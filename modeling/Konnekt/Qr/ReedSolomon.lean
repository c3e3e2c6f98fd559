import Mathlib

/-!
# Reed–Solomon codewords of a QR symbol

`lib/qr.ts` computes in GF(256) with two tables: the powers of alpha, twice over, and their
logarithms. A number read past the end of a table is `undefined`, which makes a sum of indices
`NaN` and counts as zero in an exclusive or.
-/

namespace Konnekt.Qr

/-- x^8 + x^4 + x^3 + x^2 + 1. -/
def fieldPoly : Nat := 0x11d

/-- The two `Uint8Array`s. -/
structure Tables where
  exp : List Nat
  log : List Nat

/-- `x <<= 1; if (x & 0x100) x ^= FIELD_POLY`. -/
def doubled (x : Nat) : Nat :=
  let x := x <<< 1
  if x &&& 0x100 ≠ 0 then x ^^^ fieldPoly else x

/-- An element of a `Uint8Array` keeps the low byte of what is stored. -/
def store (table : List Nat) (i v : Nat) : List Nat :=
  table.set i (v % 256)

/-- One round of the loop that fills both tables. -/
def fillStep (s : Nat × Tables) (i : Nat) : Nat × Tables :=
  (doubled s.1, ⟨store s.2.exp i s.1, store s.2.log s.1 i⟩)

/-- The first loop, over one period of the powers. -/
def filled : Tables :=
  ((List.range 255).foldl fillStep (1, ⟨List.replicate 512 0, List.replicate 256 0⟩)).2

/-- The second loop repeats the period to the end of the table. -/
def tables : Tables :=
  { filled with
    exp := (List.range' 255 257).foldl
      (fun exp i => store exp i (exp.getD (i - 255) 0)) filled.exp }

/-- `table[i]`, where both may be `undefined`. -/
def element? (table : List Nat) (i : Option Nat) : Option Nat :=
  i.bind (table[·]?)

/-- `EXP[i]`. -/
def EXP (i : Option Nat) : Option Nat := element? tables.exp i

/-- `LOG[a]`. -/
def LOG (a : Option Nat) : Option Nat := element? tables.log a

/-- `a + b`, which is not a number when one of them is `undefined`. -/
def sum? (a b : Option Nat) : Option Nat :=
  a.bind fun a => b.map (a + ·)

/-- `a ^= b`. -/
def xorAssign (b : Option Nat) (a : Nat) : Nat :=
  a ^^^ b.getD 0

def gfMul (a b : Option Nat) : Option Nat :=
  if a = some 0 ∨ b = some 0 then some 0 else EXP (sum? (LOG a) (LOG b))

/-- One round of the inner loop of `rsGenerator`. -/
def multiplyStep (poly : List Nat) (root : Option Nat) (next : List Nat) (j : Nat) : List Nat :=
  (next.modify j (xorAssign poly[j]?)).modify (j + 1) (xorAssign (gfMul poly[j]? root))

/-- `next`: the polynomial times one more factor. -/
def multiplied (poly : List Nat) (root : Option Nat) : List Nat :=
  (List.range poly.length).foldl (multiplyStep poly root) (List.replicate (poly.length + 1) 0)

/-- The outer loop of `rsGenerator`. -/
def generatorOf (degree : Nat) : List Nat :=
  (List.range degree).foldl (fun poly i => multiplied poly (EXP (some i))) [1]

/-- `generators`, the polynomials kept from earlier calls. -/
abbrev Generators := List (Nat × List Nat)

/-- The polynomial, and what is kept after the call. -/
def rsGenerator (generators : Generators) (degree : Nat) : List Nat × Generators :=
  match generators.lookup degree with
  | some cached => (cached, generators)
  | none => (generatorOf degree, (degree, generatorOf degree) :: generators)

/-- One codeword through the register: its first entry leaves, a zero enters. -/
def encodeStep (gen : List Nat) (degree : Nat) (rem : List Nat) (byte : Nat) : List Nat :=
  let factor := byte ^^^ rem.head?.getD 0
  (List.range degree).foldl
    (fun rem i => rem.modify i (xorAssign (gfMul gen[i + 1]? (some factor)))) (rem.tail ++ [0])

/-- The codewords, and what is kept after the call. -/
def rsEncode (generators : Generators) (data : List Nat) (degree : Nat) :
    List Nat × Generators :=
  let (gen, generators) := rsGenerator generators degree
  (data.foldl (encodeStep gen degree) (List.replicate degree 0), generators)

/-- What a sequence of calls to `rsGenerator` keeps. -/
def kept (calls : List Nat) : Generators :=
  calls.foldl (fun generators degree => (rsGenerator generators degree).2) []

-- (x + 1)(x + 2)
example : (rsGenerator [] 2).1 = [1, 3, 2] := by decide +kernel

end Konnekt.Qr
