import Konnekt.Go.Order
import Konnekt.Go.Text
import Mathlib.Data.String.Basic

/-!
# Versions and the release to offer

A version is `vMAJOR.MINOR.PATCH[-prerelease]`, and whatever is not is read as one all the
same. The updater orders two of them to choose a release and to say whether it is newer
than the running build. A script of the release pipeline orders tags with a copy of the
same rules. Text is compared by characters, which is the order of its bytes.
-/

namespace Konnekt.Update

open Go

/-- The parts of a text between the first separators `c`, at most so many cuts. -/
def cutParts (c : Char) : Nat → List Char → List (List Char)
  | 0, s => [s]
  | n + 1, s =>
    match s.dropWhile (· ≠ c) with
    | [] => [s]
    | _ :: rest => s.takeWhile (· ≠ c) :: cutParts c n rest

/-- `strings.SplitN(s, c, 3)`. -/
def splitThree (s : String) (c : Char) : List String := (cutParts c 2 s.toList).map String.ofList

/-- `splitVersion`. -/
def splitVersion (v : String) : String × String :=
  let v := trimPrefix v "v"
  match cutAt '-' v with
  | some (core, prerelease) => (core, prerelease)
  | none => (v, "")

/-- Three numbers, one for each of the first parts that can be read. -/
def readCore (read : String → Option Int) (core : String) : List Int :=
  (List.range 3).map fun i => (((splitThree core '.')[i]?).bind read).getD 0

/-- The first difference between the numbers of two cores. -/
def compareCores : List Int → List Int → Int
  | a :: as, b :: bs => if a ≠ b then if a < b then -1 else 1 else compareCores as bs
  | _, _ => 0

/-! ## The updater -/

/-- `parseVersionCore`. -/
def parseVersionCore (core : String) : List Int := readCore atoi core

/-- Decimal digits and at least one of them. -/
def allDigits (s : String) : Bool := s ≠ "" && s.toList.all fun c => '0' ≤ c ∧ c ≤ '9'

/-- `numericIdentifier`. -/
def numericIdentifier (s : String) : Option Int :=
  if allDigits s then (parseInt "ParseInt" s).toOption else none

/-- `comparePrereleaseIdentifier`. -/
def comparePrereleaseIdentifier (a b : String) : Int :=
  match numericIdentifier a, numericIdentifier b with
  | some numA, some numB => if numA < numB then -1 else if numB < numA then 1 else 0
  | some _, none => -1
  | none, some _ => 1
  | none, none => threeWay a b

/-- The identifiers two suffixes share, and then how many are left of each. -/
def compareIdentifiers : List String → List String → Int
  | a :: as, b :: bs =>
    let c := comparePrereleaseIdentifier a b
    if c ≠ 0 then c else compareIdentifiers as bs
  | [], _ :: _ => -1
  | _ :: _, [] => 1
  | [], [] => 0

/-- `comparePrerelease`. -/
def comparePrerelease (a b : String) : Int := compareIdentifiers (split a '.') (split b '.')

/-- `compareVersions`. -/
def compareVersions (a b : String) : Int :=
  let (coreA, preA) := splitVersion a
  let (coreB, preB) := splitVersion b
  let c := compareCores (parseVersionCore coreA) (parseVersionCore coreB)
  if c ≠ 0 then c
  else if preA = "" ∧ preB = "" then 0
  else if preA = "" ∧ preB ≠ "" then 1
  else if preA ≠ "" ∧ preB = "" then -1
  else comparePrerelease preA preB

/-- A release the updater could offer. -/
structure Candidate where
  channel : String
  version : String
  deriving DecidableEq, Repr

/-- What asking for a release gives: nothing when none is published or its version cannot be
read. -/
abbrev Fetched := Except String (Option Candidate)

/-- `resolveCandidate`, with what asking either channel gives. -/
def resolveCandidate (stable snap : Fetched) (channel : String) : Fetched :=
  if channel ≠ "snapshot" then stable
  else
    match stable, snap with
    | .ok (some stable), .ok (some snap) =>
      if compareVersions snap.version stable.version > 0 then .ok (some snap)
      else .ok (some stable)
    | .ok (some stable), _ => .ok (some stable)
    | _, .ok (some snap) => .ok (some snap)
    | .error err, _ => .error err
    | _, .error err => .error err
    | .ok none, .ok none => .ok none

/-- `IsSnapshotVersion`. -/
def isSnapshotVersion (v : String) : Bool := decide ("-snapshot.".toList <:+: v.toList)

/-- `EffectiveChannel`. -/
def effectiveChannel (setting currentVersion : String) : String :=
  if isSnapshotVersion currentVersion || setting = "snapshot" then "snapshot" else "stable"

/-- `models.UpdateInfo`, as far as the versions go. -/
structure UpdateInfo where
  currentVersion : String
  latestVersion : String
  updateAvailable : Bool
  channel : String
  deriving DecidableEq, Repr

/-- `CheckForUpdates`. -/
def checkForUpdates (stable snap : Fetched) (currentVersion channelSetting : String) :
    Except String UpdateInfo :=
  let channel := effectiveChannel channelSetting currentVersion
  match resolveCandidate stable snap channel with
  | .error err => .error err
  | .ok none => .ok ⟨currentVersion, currentVersion, false, channel⟩
  | .ok (some c) =>
    .ok ⟨currentVersion, c.version, compareVersions c.version currentVersion > 0, c.channel⟩

/-! ## The script -/

namespace Script

/-- `Py_ISSPACE`. -/
def isSpace (c : Char) : Bool := c = ' ' || (9 ≤ c.toNat && c.toNat ≤ 13)

/-- How many digits `int` takes. -/
def maxStrDigits : Nat := 4300

/-- Digits with single underscores between them. -/
def underscored : List Char → Option (List Char)
  | [] => none
  | [c] => if (digitVal c).isSome then some [c] else none
  | c :: '_' :: cs => if (digitVal c).isSome then (underscored cs).map (c :: ·) else none
  | c :: cs => if (digitVal c).isSome then (underscored cs).map (c :: ·) else none

/-- A run of digits with underscores as a number. -/
def magnitude (cs : List Char) : Option Nat :=
  match underscored cs with
  | none => none
  | some digits => if maxStrDigits < digits.length then none else decimalVal digits

/-- `int` of ASCII text, `none` for a `ValueError`. -/
def int (s : String) : Option Int :=
  match ((s.toList.dropWhile isSpace).reverse.dropWhile isSpace).reverse with
  | '+' :: cs => (magnitude cs).map Int.ofNat
  | '-' :: cs => (magnitude cs).map fun n => -Int.ofNat n
  | cs => (magnitude cs).map Int.ofNat

/-- `parse_core`. -/
def parseCore (core : String) : List Int := readCore int core

/-- `numeric_identifier`, `none` where `int` raises. -/
def numericIdentifier (identifier : String) : Option (Option Int) :=
  if allDigits identifier then
    (int identifier).map fun value => if value ≤ 2 ^ 63 - 1 then some value else none
  else some none

/-- `compare_identifier`. -/
def compareIdentifier (a b : String) : Option Int := do
  let numA ← numericIdentifier a
  let numB ← numericIdentifier b
  match numA, numB with
  | some numA, some numB => some (threeWay numA numB)
  | some _, none => some (-1)
  | none, some _ => some 1
  | none, none => some (threeWay a b)

/-- The loop of `compare_prerelease` and the lengths behind it. -/
def compareIdentifiers : List String → List String → Option Int
  | a :: as, b :: bs => do
    let order ← compareIdentifier a b
    if order ≠ 0 then some order else compareIdentifiers as bs
  | [], _ :: _ => some (-1)
  | _ :: _, [] => some 1
  | [], [] => some 0

/-- `compare_prerelease`. -/
def comparePrerelease (a b : String) : Option Int :=
  compareIdentifiers (split a '.') (split b '.')

/-- `compare_versions` of ASCII text, `none` where it raises. -/
def compareVersions (a b : String) : Option Int :=
  let (coreA, preA) := splitVersion a
  let (coreB, preB) := splitVersion b
  let c := compareCores (parseCore coreA) (parseCore coreB)
  if c ≠ 0 then some c
  else if preA = "" ∧ preB = "" then some 0
  else if preA = "" then some 1
  else if preB = "" then some (-1)
  else comparePrerelease preA preB

end Script

end Konnekt.Update
