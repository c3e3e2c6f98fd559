import Konnekt.Js.Json
import Konnekt.Qr.ReedSolomon
import Mathlib

/-!
# The symbol of a text

`encodeQr` of `lib/qr.ts`: the codewords of a text in byte mode at level M, the modules of a
symbol of version 1 to 10 that carry them, and the mask. A matrix is the list of its rows, and
what a drawing function does is the list of its calls of the `Setter`. All numbers stay below
2^31, where the bit operations of the language are those of the naturals.
-/

namespace Konnekt.Qr

open Go (Float64)

/-! ## Text -/

/-- A string, as its UTF-16 code units. -/
abbrev Text := List UInt16

/-- A unit that is half of no pair: a surrogate becomes the replacement character. -/
def scalarValue (u : UInt16) : Char :=
  if 0xD800 ≤ u ∧ u < 0xE000 then Char.ofNat 0xFFFD else Char.ofNat u.toNat

/-- The characters of a string. -/
def scalarValues : Text → List Char
  | [] => []
  | [u] => [scalarValue u]
  | u :: v :: rest =>
    if 0xD800 ≤ u ∧ u < 0xDC00 ∧ 0xDC00 ≤ v ∧ v < 0xE000 then
      Char.ofNat (0x10000 + (u.toNat - 0xD800) * 0x400 + (v.toNat - 0xDC00)) :: scalarValues rest
    else scalarValue u :: scalarValues (v :: rest)

/-- `new TextEncoder().encode(text)`. -/
def utf8Bytes (text : Text) : List Nat :=
  (scalarValues text).flatMap fun c => (String.utf8EncodeChar c).map UInt8.toNat

/-! ## Capacity, versions 1 to 10, level M -/

def EC_LEVEL_M_BITS : Nat := 0b00

def MIN_VERSION : Nat := 1

def MAX_VERSION : Nat := 10

structure Layout where
  /-- Error-correction codewords in each block. -/
  ec : Nat
  /-- The count of blocks and the data codewords of each. -/
  groups : List (Nat × Nat)

def LAYOUTS : List Layout :=
  [⟨10, [(1, 16)]⟩, ⟨16, [(1, 28)]⟩, ⟨26, [(1, 44)]⟩, ⟨18, [(2, 32)]⟩, ⟨24, [(2, 43)]⟩,
    ⟨16, [(4, 27)]⟩, ⟨18, [(4, 31)]⟩, ⟨22, [(2, 38), (2, 39)]⟩, ⟨22, [(3, 36), (2, 37)]⟩,
    ⟨26, [(4, 43), (1, 44)]⟩]

/-- `LAYOUTS[version - 1]`. -/
def layout (version : Nat) : Layout := LAYOUTS.getD (version - 1) ⟨0, []⟩

def ALIGNMENT_CENTRES : List (List Nat) :=
  [[], [6, 18], [6, 22], [6, 26], [6, 30], [6, 34], [6, 22, 38], [6, 24, 42], [6, 26, 46],
    [6, 28, 50]]

def dataCodewordCount (version : Nat) : Nat :=
  (layout version).groups.foldl (fun sum g => sum + g.1 * g.2) 0

def countBits (version : Nat) : Nat := if version < 10 then 8 else 16

def byteCapacity (version : Nat) : Nat :=
  (dataCodewordCount version * 8 - 4 - countBits version) / 8

inductive RangeError where
  | mask (forceMask : Float64)
  | tooLong (byteLength : Nat)

def RangeError.message : RangeError → String
  | mask forceMask => "Mask must be 0 to 7, got " ++ Js.numberText forceMask
  | tooLong byteLength =>
    "Too long for a QR code: " ++ toString byteLength ++ " bytes, at most " ++
      toString (byteCapacity MAX_VERSION)

def selectVersion (byteLength : Nat) : Except RangeError Nat :=
  match (List.range' MIN_VERSION (MAX_VERSION + 1 - MIN_VERSION)).find?
    fun v => byteLength ≤ byteCapacity v with
  | some v => .ok v
  | none => .error (.tooLong byteLength)

/-! ## The codeword stream -/

/-- The highest bit first. -/
def appendBits (bits : List Nat) (value length : Nat) : List Nat :=
  bits ++ (List.range length).reverse.map fun i => (value >>> i) &&& 1

/-- `while (bits.length % 8 !== 0) bits.push(0)`. -/
def aligned (bits : List Nat) : List Nat :=
  bits ++ List.replicate ((8 - bits.length % 8) % 8) 0

/-- Eight bits at a time, as a number. -/
def words (bits : List Nat) : List Nat :=
  (List.range ((bits.length + 7) / 8)).map fun k =>
    ((bits.drop (8 * k)).take 8).foldl (fun acc bit => (acc <<< 1) ||| bit) 0

/-- The pad codewords, from `pad` on. -/
def padded : Nat → Nat → List Nat
  | 0, _ => []
  | n + 1, pad => pad :: padded n (pad ^^^ (0xec ^^^ 0x11))

def dataCodewords (bytes : List Nat) (version : Nat) : List Nat :=
  let capacityBits := dataCodewordCount version * 8
  let bits := appendBits [] 0b0100 4
  let bits := appendBits bits bytes.length (countBits version)
  let bits := bytes.foldl (fun bits byte => appendBits bits byte 8) bits
  let bits := appendBits bits 0 (min 4 (capacityBits - bits.length))
  let words := words (aligned bits)
  words ++ padded (capacityBits / 8 - words.length) 0xec

/-- The data of the blocks, which are cut off one after the other. -/
def blocksOf (data : List Nat) : List Nat → Nat → List (List Nat)
  | [], _ => []
  | len :: lens, start => (data.drop start).take len :: blocksOf data lens (start + len)

/-- `blocks.map((block) => rsEncode(block, ec))`. -/
def checksOf (generators : Generators) (ec : Nat) :
    List (List Nat) → List (List Nat) × Generators
  | [] => ([], generators)
  | block :: blocks =>
    let (check, generators) := rsEncode generators block ec
    let (checks, generators) := checksOf generators ec blocks
    (check :: checks, generators)

/-- The lengths of the blocks, one group after the other. -/
def blockLengths (version : Nat) : List Nat :=
  (layout version).groups.flatMap fun g => List.replicate g.1 g.2

/-- Column `i` of the blocks that are long enough. -/
def column (blocks : List (List Nat)) (i : Nat) : List Nat := blocks.filterMap (·[i]?)

/-- The codewords, and the generators that are kept. -/
def interleave (generators : Generators) (data : List Nat) (version : Nat) :
    List Nat × Generators :=
  let ec := (layout version).ec
  let blocks := blocksOf data (blockLengths version) 0
  let (checks, generators) := checksOf generators ec blocks
  let longest := (blocks.map List.length).foldl max 0
  ((List.range longest).flatMap (column blocks) ++ (List.range ec).flatMap (column checks),
    generators)

/-! ## Format and version information -/

def bchRemainder (value poly bits : Nat) : Nat :=
  (List.range bits).foldl (fun rem _ => (rem <<< 1) ^^^ ((rem >>> (bits - 1)) * poly)) value

def formatBits (mask : Nat) : Nat :=
  let data := (EC_LEVEL_M_BITS <<< 3) ||| mask
  ((data <<< 10) ||| bchRemainder data 0x537 10) ^^^ 0x5412

def versionBits (version : Nat) : Nat :=
  (version <<< 12) ||| bchRemainder version 0x1f25 12

/-- One call of a `Setter`. -/
structure Call where
  x : Nat
  y : Nat
  dark : Bool

/-- `((bits >>> i) & 1) === 1`. -/
def bit (bits i : Nat) : Bool := (bits >>> i) &&& 1 == 1

def drawFormat (size mask : Nat) : List Call :=
  let bits := formatBits mask
  ((List.range 15).flatMap fun i =>
    [if i ≤ 5 then ⟨8, i, bit bits i⟩
      else if i = 6 then ⟨8, 7, bit bits i⟩
      else if i = 7 then ⟨8, 8, bit bits i⟩
      else if i = 8 then ⟨7, 8, bit bits i⟩
      else ⟨14 - i, 8, bit bits i⟩,
    if i ≤ 7 then ⟨size - 1 - i, 8, bit bits i⟩ else ⟨8, size - 15 + i, bit bits i⟩]) ++
  [⟨8, size - 8, true⟩]

def drawVersion (version size : Nat) : List Call :=
  if version < 7 then []
  else (List.range 18).flatMap fun i =>
    let dark := bit (versionBits version) i
    let a := size - 11 + i % 3
    let b := i / 3
    [⟨a, b, dark⟩, ⟨b, a, dark⟩]

/-! ## The matrix -/

/-- Rows, each from left to right; `true` is a dark module. -/
abbrev Modules := List (List Bool)

/-- `rows[y][x]`. -/
def cell (rows : Modules) (x y : Nat) : Bool := (rows.getD y []).getD x false

/-- `rows[y][x] = value`. -/
def write (rows : Modules) (x y : Nat) (value : Bool) : Modules :=
  rows.modify y (·.set x value)

structure Grid where
  size : Nat
  dark : Modules
  /-- The function modules. -/
  fixed : Modules

def blank (size : Nat) : Modules := List.replicate size (List.replicate size false)

/-- The `Setter` of `drawFunctionPatterns`. -/
def Grid.set (grid : Grid) (call : Call) : Grid :=
  { grid with
    dark := write grid.dark call.x call.y call.dark
    fixed := write grid.fixed call.x call.y true }

/-- The numbers from `-radius` to `radius`. -/
def offsets (radius : Nat) : List Int :=
  (List.range (2 * radius + 1)).map fun (k : Nat) => (k : Int) - radius

def drawTiming (size : Nat) : List Call :=
  (List.range size).flatMap fun i => [⟨6, i, i % 2 = 0⟩, ⟨i, 6, i % 2 = 0⟩]

/-- A finder with its separator, cut off at the edges. -/
def drawFinder (size cx cy : Nat) : List Call :=
  (offsets 4).flatMap fun (dy : Int) => (offsets 4).filterMap fun (dx : Int) =>
    let x := (cx : Int) + dx
    let y := (cy : Int) + dy
    let ring := max dx.natAbs dy.natAbs
    if x < 0 ∨ y < 0 ∨ size ≤ x ∨ size ≤ y then none
    else some ⟨x.toNat, y.toNat, ring ≠ 2 ∧ ring ≠ 4⟩

def drawAlignment (cx cy : Nat) : List Call :=
  (offsets 2).flatMap fun (dy : Int) => (offsets 2).map fun (dx : Int) =>
    ⟨(cx + dx).toNat, (cy + dy).toNat, max dx.natAbs dy.natAbs ≠ 1⟩

/-- The pairs of centres, except the three that would land on a finder. -/
def alignmentPairs (version : Nat) : List (Nat × Nat) :=
  let centres := ALIGNMENT_CENTRES.getD (version - 1) []
  let last := centres.length - 1
  centres.zipIdx.flatMap fun cy => centres.zipIdx.filterMap fun cx =>
    if (cy.2 = 0 ∧ cx.2 = 0) ∨ (cy.2 = 0 ∧ cx.2 = last) ∨ (cy.2 = last ∧ cx.2 = 0) then none
    else some (cx.1, cy.1)

/-- The calls of `drawFunctionPatterns`, in their order. -/
def functionCalls (version size : Nat) : List Call :=
  drawTiming size ++
    (drawFinder size 3 3 ++ drawFinder size (size - 4) 3 ++ drawFinder size 3 (size - 4)) ++
    (alignmentPairs version).flatMap (fun c => drawAlignment c.1 c.2) ++
    drawFormat size 0 ++ drawVersion version size

def drawFunctionPatterns (version : Nat) : Grid :=
  let size := 17 + 4 * version
  (functionCalls version size).foldl Grid.set ⟨size, blank size, blank size⟩

/-- The values of `right`; the pair that would straddle the timing pattern steps over it. -/
def strips : Nat → List Nat
  | 0 => []
  | 1 => [1]
  | 6 => 5 :: strips 3
  | right + 2 => (right + 2) :: strips right

def upward (right : Nat) : Bool := (right + 1) &&& 2 == 0

/-- The modules of a strip, in the order they are visited. -/
def strip (size right : Nat) (upward : Bool) : List (Nat × Nat) :=
  (List.range size).flatMap fun step =>
    let y := if upward then size - 1 - step else step
    [(right, y), (right - 1, y)]

def visited (size : Nat) : List (Nat × Nat) :=
  (strips (size - 1)).flatMap fun right => strip size right (upward right)

/-- One round of the innermost loop of `placeCodewords`, over `i` and the modules. -/
def placeStep (fixed : Modules) (codewords : List Nat) (s : Nat × Modules) (c : Nat × Nat) :
    Nat × Modules :=
  if cell fixed c.1 c.2 ∨ codewords.length * 8 ≤ s.1 then s
  else (s.1 + 1, write s.2 c.1 c.2 (bit (codewords.getD (s.1 >>> 3) 0) (7 - (s.1 &&& 7))))

def placeCodewords (grid : Grid) (codewords : List Nat) : Grid :=
  { grid with
    dark := ((visited grid.size).foldl (placeStep grid.fixed codewords) (0, grid.dark)).2 }

/-- The eight data masks of Table 10, on the row `i` and the column `j`. -/
def MASKS : List (Nat → Nat → Bool) :=
  [fun i j => (i + j) % 2 = 0,
    fun i _ => i % 2 = 0,
    fun _ j => j % 3 = 0,
    fun i j => (i + j) % 3 = 0,
    fun i j => (i / 2 + j / 3) % 2 = 0,
    fun i j => (i * j) % 2 + (i * j) % 3 = 0,
    fun i j => ((i * j) % 2 + (i * j) % 3) % 2 = 0,
    fun i j => ((i + j) % 2 + (i * j) % 3) % 2 = 0]

def masked (grid : Grid) (version mask : Nat) : Modules :=
  let out := grid.dark.mapIdx fun y row => row.mapIdx fun x dark =>
    if cell grid.fixed x y then dark else dark != MASKS.getD mask (fun _ _ => false) y x
  (drawFormat grid.size mask ++ drawVersion version grid.size).foldl
    (fun out call => write out call.x call.y call.dark) out

/-! ## Mask selection -/

def PENALTY_RUN : Nat := 3

def PENALTY_BLOCK : Nat := 3

def PENALTY_FINDER_LIKE : Nat := 40

def PENALTY_BALANCE : Nat := 10

def FINDER_LIKE : List Bool := [true, false, true, true, true, false, true]

/-- Whether the modules from `start` up to `stop` are all there and light. -/
def lightFor (row : List Bool) (start stop : Int) : Bool :=
  0 ≤ start && stop ≤ row.length &&
    ((row.drop start.toNat).take (stop.toNat - start.toNat)).all (!·)

/-- One round of the first loop of `linePenalty`, over the score and the run. -/
def runStep (row : List Bool) (s : Nat × Nat) (i : Nat) : Nat × Nat :=
  if i < row.length ∧ row[i]? = row[i - 1]? then (s.1, s.2 + 1)
  else (if 5 ≤ s.2 then s.1 + (PENALTY_RUN + s.2 - 5) else s.1, 1)

def finderStep (row : List Bool) (score i : Nat) : Nat :=
  if (row.drop i).take FINDER_LIKE.length = FINDER_LIKE then
    score + (if lightFor row ((i : Int) - 4) i then PENALTY_FINDER_LIKE else 0) +
      (if lightFor row (i + 7) (i + 11) then PENALTY_FINDER_LIKE else 0)
  else score

def linePenalty (row : List Bool) : Nat :=
  let score := ((List.range' 1 row.length).foldl (runStep row) (0, 1)).1
  (List.range (row.length + 1 - FINDER_LIKE.length)).foldl (finderStep row) score

def penalty (modules : Modules) : Nat :=
  let size := modules.length
  let lines := (List.range size).foldl (fun score k =>
    score + linePenalty (modules.getD k []) +
      linePenalty (modules.map fun row => row.getD k false)) 0
  let blocks := (List.range (size - 1)).foldl (fun score y =>
    (List.range (size - 1)).foldl (fun score x =>
      let c := cell modules x y
      if cell modules (x + 1) y = c ∧ cell modules x (y + 1) = c ∧ cell modules (x + 1) (y + 1) = c
      then score + PENALTY_BLOCK else score) score) lines
  let darkCount : Nat := modules.foldl (fun sum row => sum + row.countP id) 0
  let total := size * size
  blocks + ((darkCount * 20 : Int) - total * 10).natAbs / total * PENALTY_BALANCE

/-! ## `encodeQr` -/

/-- A number from 0 to 7, or nothing. -/
def maskNumber : Float64 → Option Nat
  | .fin q => if q.den = 1 ∧ 0 ≤ q ∧ q < 8 then some q.num.toNat else none
  | _ => none

/-- `score < bestScore`, which starts out infinite. -/
def improves (score : Nat) (bestScore : Option Nat) : Bool :=
  bestScore.all (score < ·)

/-- One round of the loop over the masks. -/
def bestStep (grid : Grid) (version : Nat) (s : Modules × Option Nat) (mask : Nat) :
    Modules × Option Nat :=
  let candidate := masked grid version mask
  let score := penalty candidate
  if improves score s.2 then (candidate, some score) else s

/-- The grid of the text with its codewords, the version, and the generators that are kept. -/
def drawn (generators : Generators) (bytes : List Nat) (version : Nat) : Grid × Generators :=
  let (codewords, generators) := interleave generators (dataCodewords bytes version) version
  (placeCodewords (drawFunctionPatterns version) codewords, generators)

/-- The matrix or what is thrown, and the generators that are kept. -/
def encodeQr (generators : Generators) (text : Text) (forceMask : Option Float64) :
    Except RangeError Modules × Generators :=
  match forceMask, forceMask.bind maskNumber with
  | some f, none => (.error (.mask f), generators)
  | _, mask =>
    let bytes := utf8Bytes text
    match selectVersion bytes.length with
    | .error e => (.error e, generators)
    | .ok version =>
      let (grid, generators) := drawn generators bytes version
      match mask with
      | some mask => (.ok (masked grid version mask), generators)
      | none =>
        (.ok ((List.range MASKS.length).foldl (bestStep grid version) ([], none)).1, generators)

end Konnekt.Qr
