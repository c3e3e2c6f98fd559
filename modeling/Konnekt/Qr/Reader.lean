import Konnekt.Codes.Bits
import Konnekt.Qr.Encode
import Mathlib

/-!
# Reading a symbol

A reader of the symbols of version 1 to 10 at level M that hold one text in byte mode, after the
standard: the version is in the size, the mask in the format information, the codewords are in
the modules that no pattern takes, in strips of two columns from the right.
-/

namespace Konnekt.Qr

open Codes

/-! ## The modules of a symbol -/

/-- The modules along a side of a symbol. -/
def width (version : Nat) : Nat := 17 + 4 * version

/-- The centres of the alignment patterns. -/
def alignmentSquares (version : Nat) : List (Nat × Nat) :=
  let middle := (width version - 1) / 2
  let last := width version - 7
  if version = 1 then []
  else if version < 7 then [(last, last)]
  else [(middle, 6), (6, middle), (middle, middle), (last, middle), (middle, last), (last, last)]

/-- Whether a module belongs to a timing pattern, a finder with its format information, an
alignment pattern or the version information. -/
def isFunction (version x y : Nat) : Bool :=
  let size := width version
  x == 6 || y == 6 || (x ≤ 8 && y ≤ 8) || (size - 8 ≤ x && y ≤ 8) || (x ≤ 8 && size - 8 ≤ y) ||
    (alignmentSquares version).any (fun c =>
      (x ≤ c.1 + 2 && c.1 ≤ x + 2) && (y ≤ c.2 + 2 && c.2 ≤ y + 2)) ||
    (7 ≤ version && (((size - 11 ≤ x && x ≤ size - 9) && y ≤ 5) ||
      (x ≤ 5 && (size - 11 ≤ y && y ≤ size - 9))))

/-! ## The order of the modules -/

/-- The strips of two columns from the right, each with its right column and whether it is read
upwards; the column of the vertical timing pattern is left out. -/
def columnPairs (version : Nat) : List (Nat × Bool) :=
  (List.range ((width version - 1) / 2)).map fun k =>
    let right := width version - 1 - 2 * k
    (if right ≤ 6 then right - 1 else right, k % 2 == 0)

/-- The modules in the order they are read, function modules included. -/
def readOrder (version : Nat) : List (Nat × Nat) :=
  (columnPairs version).flatMap fun c => (List.range (width version)).flatMap fun step =>
    let y := if c.2 then width version - 1 - step else step
    [(c.1, y), (c.1 - 1, y)]

/-- The modules that carry data, in the order they are read. -/
def dataCells (version : Nat) : List (Nat × Nat) :=
  (readOrder version).filter fun c => !isFunction version c.1 c.2

/-! ## Blocks -/

/-- Table 9 at level M: the check codewords of a block, and the data codewords of each. -/
def blockTable : Nat → Nat × List Nat
  | 1 => (10, [16])
  | 2 => (16, [28])
  | 3 => (26, [44])
  | 4 => (18, [32, 32])
  | 5 => (24, [43, 43])
  | 6 => (16, [27, 27, 27, 27])
  | 7 => (18, [31, 31, 31, 31])
  | 8 => (22, [38, 38, 39, 39])
  | 9 => (22, [36, 36, 36, 37, 37])
  | 10 => (26, [43, 43, 43, 43, 44])
  | _ => (0, [])

/-- The codewords of a symbol. -/
def totalCodewords (version : Nat) : Nat :=
  (blockTable version).2.sum + (blockTable version).2.length * (blockTable version).1

/-- Column `i` of the codewords dealt out: one to each block that is longer than `i`. -/
def dealColumn (i : Nat) : List Nat → List (List Nat) → List Nat → List (List Nat) × List Nat
  | len :: lens, block :: blocks, stream =>
    let width := if i < len then 1 else 0
    let dealt := dealColumn i lens blocks (stream.drop width)
    ((block ++ stream.take width) :: dealt.1, dealt.2)
  | _, _, stream => ([], stream)

/-- Codewords dealt out column by column to blocks of the given lengths, and what is left. -/
def deal (lens stream : List Nat) : List (List Nat) × List Nat :=
  (List.range (lens.foldl max 0)).foldl (fun dealt i => dealColumn i lens dealt.1 dealt.2)
    (lens.map fun _ => [], stream)

/-- The blocks of a symbol, each with its check codewords. -/
def readBlocks (version : Nat) (codewords : List Nat) : List (List Nat × List Nat) :=
  let lens := (blockTable version).2
  let data := deal lens codewords
  let checks := deal (lens.map fun _ => (blockTable version).1) data.2
  data.1.zip checks.1

/-! ## The data -/

/-- Byte mode: the mode, the count and that many bytes. -/
def readBytes (version : Nat) (data : List Nat) : Option (List Nat) :=
  let stream := written 8 data
  let width := if version ≤ 9 then 8 else 16
  let count := number ((stream.drop 4).take width)
  if number (stream.take 4) = 4 ∧ 4 + width + 8 * count ≤ stream.length then
    some (readNumbers 8 count (stream.drop (4 + width)))
  else none

/-! ## The symbol -/

/-- Table 10: whether the mask turns the module of row `i` and column `j`. -/
def maskBit : Nat → Nat → Nat → Bool
  | 0, i, j => (i + j) % 2 == 0
  | 1, i, _ => i % 2 == 0
  | 2, _, j => j % 3 == 0
  | 3, i, j => (i + j) % 3 == 0
  | 4, i, j => (i / 2 + j / 3) % 2 == 0
  | 5, i, j => i * j % 2 + i * j % 3 == 0
  | 6, i, j => (i * j % 2 + i * j % 3) % 2 == 0
  | 7, i, j => ((i + j) % 2 + i * j % 3) % 2 == 0
  | _, _, _ => false

/-- The modules of the format information around the first finder, the lowest bit first. -/
def formatCell (i : Nat) : Nat × Nat :=
  if i ≤ 5 then (8, i) else if i = 6 then (8, 7) else if i = 7 then (8, 8)
  else if i = 8 then (7, 8) else (14 - i, 8)

/-- The format information without its fixed mask: the level, the data mask and check bits. -/
def readFormat (rows : Modules) : Nat :=
  number ((List.range 15).reverse.map fun i =>
    (cell rows (formatCell i).1 (formatCell i).2).toNat) ^^^ 0x5412

/-- The codewords, from the modules that carry data. -/
def readCodewords (version mask : Nat) (rows : Modules) : List Nat :=
  readNumbers 8 (totalCodewords version)
    ((dataCells version).map fun c => (cell rows c.1 c.2 != maskBit mask c.2 c.1).toNat)

/-- What a symbol holds. -/
structure Symbol where
  version : Nat
  level : Nat
  mask : Nat
  /-- The data codewords and the check codewords of each block. -/
  blocks : List (List Nat × List Nat)
  bytes : List Nat

/-- A reader of symbols at level M in byte mode. -/
def readSymbol (rows : Modules) : Option Symbol :=
  let version := (rows.length - 17) / 4
  let format := readFormat rows
  let level := format / 2 ^ 13
  let mask := format / 2 ^ 10 % 8
  let blocks := readBlocks version (readCodewords version mask rows)
  if rows.length = width version ∧ level = EC_LEVEL_M_BITS then
    (readBytes version (blocks.flatMap (·.1))).map fun bytes =>
      ⟨version, level, mask, blocks, bytes⟩
  else none

end Konnekt.Qr
