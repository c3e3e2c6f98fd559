import Mathlib

/-!
# The NBT reader

A tag's payload is read from a stream of bytes. Lists and compounds nest, and a list
allocates its slots before it reads them.
-/

namespace Konnekt.Worlds

@[match_pattern] def tagEnd : UInt8 := 0
@[match_pattern] def tagByte : UInt8 := 1
@[match_pattern] def tagShort : UInt8 := 2
@[match_pattern] def tagInt : UInt8 := 3
@[match_pattern] def tagLong : UInt8 := 4
@[match_pattern] def tagFloat : UInt8 := 5
@[match_pattern] def tagDouble : UInt8 := 6
@[match_pattern] def tagByteArray : UInt8 := 7
@[match_pattern] def tagString : UInt8 := 8
@[match_pattern] def tagList : UInt8 := 9
@[match_pattern] def tagCompound : UInt8 := 10
@[match_pattern] def tagIntArray : UInt8 := 11
@[match_pattern] def tagLongArray : UInt8 := 12

/-- `nbtValue`, by the field that is set; an array and the end tag set none. A float is kept by its
bits, which are a single's or a double's as its type tells, a text is its bytes, and a compound
keeps its names in the order they were last set. -/
inductive NbtValue where
  | empty (tagType : UInt8)
  | i64 (tagType : UInt8) (n : Int)
  | f64 (tagType : UInt8) (bits : Int)
  | str (bytes : List UInt8)
  | list (elems : List NbtValue)
  | compound (entries : List (List UInt8 × NbtValue))

/-- A `make` of list slots: the capacity asked for, and how many bytes were left. -/
structure Alloc where
  cap : Int
  left : Nat
  deriving DecidableEq, Repr

/-- What is left of a stream, and the allocations made while it was read, the last first. -/
structure Stream where
  rest : List UInt8
  allocs : List Alloc := []
  deriving DecidableEq, Repr

/-- A read ends with a value or an error, or the process crashes. -/
inductive Read (α : Type) where
  | ok (v : α) (s : Stream)
  | err (msg : String) (s : Stream)
  | crash (s : Stream)

/-- The next read, after one that gave a value. -/
def Read.bind {α β : Type} (r : Read α) (next : α → Stream → Read β) : Read β :=
  match r with
  | .ok v s => next v s
  | .err msg s => .err msg s
  | .crash s => .crash s

/-! ## Bytes -/

/-- What some bytes start with, or why not, and what is left. -/
abbrev Parse (α : Type) : Type := List UInt8 → Except String α × List UInt8

/-- A read of bytes that allocates no slots. -/
def Parse.read {α : Type} (p : Parse α) (s : Stream) : Read α :=
  match p s.rest with
  | (.ok v, rest) => .ok v { s with rest }
  | (.error msg, rest) => .err msg { s with rest }

/-- `io.ReadFull`. -/
def readFull (n : Nat) : Parse (List UInt8) := fun bs =>
  if n ≤ bs.length then (.ok (bs.take n), bs.drop n)
  else (.error (if bs = [] then "EOF" else "unexpected EOF"), [])

/-- `io.CopyN(io.Discard, …)`. A negative number copies nothing. -/
def copyN (n : Int) : Parse Unit := fun bs =>
  if n ≤ bs.length then (.ok (), bs.drop n.toNat) else (.error "EOF", [])

/-- `binary.BigEndian`. -/
def bigEndian (bs : List UInt8) : Nat := bs.foldl (fun n b => n * 256 + b.toNat) 0

/-- A big-endian number of some bytes, signed. -/
def bigEndianInt (bs : List UInt8) : Int :=
  let n := bigEndian bs
  if 2 * n < 256 ^ bs.length then n else (n : Int) - 256 ^ bs.length

def parseByte : Parse UInt8 := fun bs =>
  match bs with
  | [] => (.error "EOF", [])
  | b :: bs => (.ok b, bs)

/-- `binary.Read` of a signed number of some bytes. -/
def parseInt (width : Nat) : Parse Int := fun bs =>
  ((readFull width bs).1.map bigEndianInt, (readFull width bs).2)

def parseString : Parse (List UInt8) := fun bs =>
  match readFull 2 bs with
  | (.error msg, rest) => (.error msg, rest)
  | (.ok length, rest) =>
    if bigEndian length = 0 then (.ok [], rest) else readFull (bigEndian length) rest

def parseSkipString : Parse Unit := fun bs =>
  match readFull 2 bs with
  | (.error msg, rest) => (.error msg, rest)
  | (.ok length, rest) => copyN (bigEndian length) rest

/-- An array is passed over: its length, and that many elements of some width. -/
def parseArray (width : Nat) : Parse Unit := fun bs =>
  match parseInt 4 bs with
  | (.error msg, rest) => (.error msg, rest)
  | (.ok length, rest) => copyN (length * width) rest

/-- The type of a list's elements, and its length. -/
def parseListHeader : Parse (UInt8 × Int) := fun bs =>
  match parseByte bs with
  | (.error msg, rest) => (.error msg, rest)
  | (.ok elemType, rest) => ((parseInt 4 rest).1.map (elemType, ·), (parseInt 4 rest).2)

/-! ## Payloads -/

/-- The loop over a list. -/
def readElems (readElem : Stream → Read NbtValue) : Nat → Stream → Read (List NbtValue)
  | 0, s => .ok [] s
  | n + 1, s =>
    (readElem s).bind fun elem s => (readElems readElem n s).bind fun list s => .ok (elem :: list) s

/-- `compound[name] = child`. -/
def setEntry (name : List UInt8) (child : NbtValue) (entries : List (List UInt8 × NbtValue)) :
    List (List UInt8 × NbtValue) :=
  entries.filter (·.1 ≠ name) ++ [(name, child)]

/-- The loop over a compound, which takes a byte in each round. -/
def readEntries (readChild : UInt8 → Stream → Read NbtValue) :
    Nat → List (List UInt8 × NbtValue) → Stream → Read (List (List UInt8 × NbtValue))
  | 0, _, s => .err "EOF" s
  | rounds + 1, entries, s =>
    (parseByte.read s).bind fun childType s =>
      if childType = tagEnd then .ok entries s
      else
        (parseString.read s).bind fun name s =>
          (readChild childType s).bind fun child s =>
            readEntries readChild rounds (setEntry name child entries) s

/-- `readPayload`, on a goroutine stack that has room for some calls of it. -/
def readPayload : Nat → UInt8 → Stream → Read NbtValue
  | 0, _, s => .crash s
  | stack + 1, tagType, s =>
    match tagType with
    | tagByte => ((parseInt 1).read s).bind fun n s => .ok (.i64 tagType n) s
    | tagShort => ((parseInt 2).read s).bind fun n s => .ok (.i64 tagType n) s
    | tagInt => ((parseInt 4).read s).bind fun n s => .ok (.i64 tagType n) s
    | tagLong => ((parseInt 8).read s).bind fun n s => .ok (.i64 tagType n) s
    | tagFloat => ((parseInt 4).read s).bind fun bits s => .ok (.f64 tagType bits) s
    | tagDouble => ((parseInt 8).read s).bind fun bits s => .ok (.f64 tagType bits) s
    | tagByteArray => ((parseArray 1).read s).bind fun _ s => .ok (.empty tagType) s
    | tagString => (parseString.read s).bind fun str s => .ok (.str str) s
    | tagList =>
      (parseListHeader.read s).bind fun (elemType, length) s =>
        -- The slots are made for whatever length the stream states.
        let s := { s with allocs := ⟨length, s.rest.length⟩ :: s.allocs }
        if length < 0 then .crash s
        else
          (readElems (readPayload stack elemType) length.toNat s).bind fun list s =>
            .ok (.list list) s
    | tagCompound =>
      (readEntries (readPayload stack) (s.rest.length + 1) [] s).bind fun compound s =>
        .ok (.compound compound) s
    | tagIntArray => ((parseArray 4).read s).bind fun _ s => .ok (.empty tagType) s
    | tagLongArray => ((parseArray 8).read s).bind fun _ s => .ok (.empty tagType) s
    | _ => .err ("nbt: unknown tag type " ++ toString tagType.toNat) s

/-- `readNamedTag`. -/
def readNamedTag (stack : Nat) (s : Stream) : Read NbtValue :=
  (parseByte.read s).bind fun tagType s =>
    if tagType = tagEnd then .ok (.empty tagEnd) s
    else (parseSkipString.read s).bind fun _ s => readPayload stack tagType s

/-! ## Compound accessors -/

/-- The field `i64`, which is zero where it is not set. -/
def NbtValue.integral : NbtValue → Int
  | .i64 _ n => n
  | _ => 0

/-- The field `str`. -/
def NbtValue.text : NbtValue → List UInt8
  | .str bytes => bytes
  | _ => []

/-- `compoundGet`, of a value or of none. -/
def compoundGet (v : Option NbtValue) (key : List UInt8) : Option NbtValue :=
  match v with
  | some (.compound entries) => (entries.find? (·.1 = key)).map (·.2)
  | _ => none

/-- `stringGet`. -/
def stringGet (v : Option NbtValue) (key : List UInt8) : List UInt8 :=
  match compoundGet v key with
  | none => []
  | some c => c.text

/-- The integral under a key, as far as it is within a range. -/
def rangeGet (low high : Int) (v : Option NbtValue) (key : List UInt8) : Int :=
  match compoundGet v key with
  | none => 0
  | some c => if c.integral < low ∨ high < c.integral then 0 else c.integral

/-- `intGet`. -/
def intGet : Option NbtValue → List UInt8 → Int := rangeGet (-2 ^ 31) (2 ^ 31 - 1)

/-- `longGet`. -/
def longGet (v : Option NbtValue) (key : List UInt8) : Int :=
  match compoundGet v key with
  | none => 0
  | some c => c.integral

/-- `byteGet`. -/
def byteGet : Option NbtValue → List UInt8 → Int := rangeGet (-2 ^ 7) (2 ^ 7 - 1)

end Konnekt.Worlds
