import Mathlib.Data.List.AList
import Mathlib.Data.List.Sort

/-!
# The canonical query of a signed request

A request to the bucket is signed over its query in one agreed spelling: every name and
value percent-encoded, the pairs in order. Strings are the bytes they are in the source.
-/

namespace Konnekt.Snapshots

namespace Signing

/-- A string as its bytes. -/
abbrev Bytes : Type := List UInt8

def percent : UInt8 := 37

def ampersand : UInt8 := 38

def slash : UInt8 := 47

def equals : UInt8 := 61

def isLetter (ch : UInt8) : Bool := decide (65 ≤ ch ∧ ch ≤ 90) || decide (97 ≤ ch ∧ ch ≤ 122)

/-- The bytes that are written as they are. -/
def isUnreserved (ch : UInt8) : Bool :=
  isLetter ch || decide (48 ≤ ch ∧ ch ≤ 57) || ch == 45 || ch == 46 || ch == 95 || ch == 126

/-- `hexDigits`, by index. -/
def hexDigit (n : UInt8) : UInt8 := if n < 10 then 48 + n else 55 + n

/-- `s3URIEncode`. -/
def s3URIEncode (encodeSlash : Bool) : Bytes → Bytes
  | [] => []
  | ch :: s =>
    if isUnreserved ch then ch :: s3URIEncode encodeSlash s
    else if ch = slash ∧ encodeSlash = false then ch :: s3URIEncode encodeSlash s
    else percent :: hexDigit (ch >>> 4) :: hexDigit (ch &&& 15) :: s3URIEncode encodeSlash s

/-- `url.Values`, its names in the order in which the loop meets them. -/
abbrev Values : Type := AList fun _ : Bytes => List Bytes

/-- Every name with each of its values. -/
def params (q : Values) : List (Bytes × Bytes) :=
  q.entries.flatMap fun e => e.2.map fun v => (e.1, v)

/-- One `name=value`, encoded. -/
def encodePair (p : Bytes × Bytes) : Bytes :=
  s3URIEncode true p.1 ++ equals :: s3URIEncode true p.2

/-- `s3CanonicalQuery`. -/
def s3CanonicalQuery (q : Values) : Bytes :=
  [ampersand].intercalate (((params q).map encodePair).insertionSort (· ≤ ·))

/-! ## Reading a query back -/

/-- The value of a hexadecimal digit. -/
def hexValue (ch : UInt8) : UInt8 := if ch ≤ 57 then ch - 48 else ch - 55

/-- Percent-encoded text, decoded. -/
def percentDecode : Bytes → Bytes
  | [] => []
  | [ch] => [ch]
  | [ch, d] => [ch, d]
  | ch :: hi :: lo :: s =>
    if ch = percent then (hexValue hi * 16 + hexValue lo) :: percentDecode s
    else ch :: percentDecode (hi :: lo :: s)

/-- A `name=value` cut at its first `=` and decoded. -/
def decodePair (s : Bytes) : Bytes × Bytes :=
  (percentDecode (s.takeWhile (· ≠ equals)), percentDecode ((s.dropWhile (· ≠ equals)).drop 1))

/-- The parameters a query spells. -/
def decodeQuery (s : Bytes) : List (Bytes × Bytes) :=
  ((s.splitOn ampersand).filter (· ≠ [])).map decodePair

end Signing

end Konnekt.Snapshots
