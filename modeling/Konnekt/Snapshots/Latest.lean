import Konnekt.Go.Padded
import Konnekt.Go.Relative
import Konnekt.Go.Resolve

/-!
# The pointer at the newest snapshot

A `latest.json` names the index of a snapshot by its path from the folder the pointer is
in. The writer makes that path out of two keys of the layout, a reader puts it back.
-/

namespace Konnekt.Snapshots

open Go

/-! ## The keys of a snapshot

Where the objects of a snapshot stand in the bucket. The parts are below the prefix of
the destination; everything else is too, in a folder of its own if the link is private. -/

/-- `strings.Trim` of slashes. -/
def trimSlashes (s : String) : String :=
  String.ofList
    (((s.toList.dropWhile (· == '/')).reverse.dropWhile (· == '/')).reverse)

/-- `strings.Repeat`. -/
def repeated (s : String) : Nat → String
  | 0 => ""
  | n + 1 => s ++ repeated s n

def dhDatabaseName : String := "DistantHorizons.sqlite"

/-- The time of a snapshot, as the index writes it and as the folder of the snapshot does. -/
structure SnapshotTime where
  createdAt : String
  stamp : String
  deriving DecidableEq, Repr

structure SnapshotKeys where
  createdAt : String
  latest : String
  index : String
  page : String
  partsPrefix : String
  partsBase : String
  snapshotDir : String
  deriving DecidableEq, Repr

namespace SnapshotKeys

/-- `PartKey`. -/
def partKey (k : SnapshotKeys) (sha256 : String) : String := k.partsPrefix ++ sha256

/-- `AssembledKey`. -/
def assembledKey (k : SnapshotKeys) (levelFolder : String) : String :=
  Path.join [k.snapshotDir, levelFolder, dhDatabaseName]

end SnapshotKeys

/-- `reDHToken`. -/
def isDHToken (token : String) : Bool :=
  !token.toList.isEmpty && token.toList.all fun c =>
    decide ('A' ≤ c ∧ c ≤ 'Z') || decide ('a' ≤ c ∧ c ≤ 'z') || decide ('0' ≤ c ∧ c ≤ '9') ||
      c == '_' || c == '-'

/-- `snapshotKeys`. -/
def snapshotKeys (keyPrefix token : String) (time : SnapshotTime) : Except String SnapshotKeys :=
  if token ≠ "" ∧ ¬ isDHToken token then
    .error "link token must be letters, digits, '_' and '-'"
  else
    let root := trimSlashes keyPrefix
    let base := if token ≠ "" then Path.join [root, token] else root
    let depth := if token ≠ "" then 3 else 2
    let dir := Path.join [base, "snapshots", time.stamp]
    let partsPrefix := if root = "" then "parts/" else Path.join [root, "parts"] ++ "/"
    .ok {
      createdAt := time.createdAt
      latest := Path.join [base, "latest.json"]
      index := Path.join [dir, "index.json"]
      page := Path.join [dir, "index.html"]
      partsPrefix
      partsBase := repeated "../" depth ++ "parts/"
      snapshotDir := dir }

/-! ## Times -/

/-- A time in UTC, by the calendar and the clock. -/
structure UTCTime where
  year : Int
  month : Nat
  day : Nat
  hour : Nat
  minute : Nat
  second : Nat
  deriving DecidableEq, Repr

/-- `formatDHCreatedAt`. -/
def formatDHCreatedAt (t : UTCTime) : String :=
  formatYear t.year ++ "-" ++ zeroPadded 2 t.month ++ "-" ++ zeroPadded 2 t.day ++ "T" ++
    zeroPadded 2 t.hour ++ ":" ++ zeroPadded 2 t.minute ++ ":" ++ zeroPadded 2 t.second ++ "Z"

/-- `dhFolderStamp`. -/
def dhFolderStamp (t : UTCTime) : String :=
  formatYear t.year ++ zeroPadded 2 t.month ++ zeroPadded 2 t.day ++ "T" ++
    zeroPadded 2 t.hour ++ zeroPadded 2 t.minute ++ zeroPadded 2 t.second ++ "Z"

def snapshotTime (t : UTCTime) : SnapshotTime := ⟨formatDHCreatedAt t, dhFolderStamp t⟩

/-! ## Keys -/

/-- `Root`. -/
def SnapshotKeys.root (k : SnapshotKeys) : String :=
  trimSlashes (trimSuffix k.partsPrefix "parts/")

/-- `reDHPublishFolder`. -/
def isPublishFolder (folder : String) : Bool :=
  !folder.toList.isEmpty && folder.toList.all fun c =>
    decide ('A' ≤ c ∧ c ≤ 'Z') || decide ('a' ≤ c ∧ c ≤ 'z') || decide ('0' ≤ c ∧ c ≤ '9') ||
      c == '_' || c == '@' || c == '-'

/-- The segments that `cleanKeyPrefix` keeps. -/
def keptSegments (p : String) : List String → Except String (List String)
  | [] => .ok []
  | seg :: segs =>
    let seg := trimSpace seg
    if seg = "" then keptSegments p segs
    else if seg = "." ∨ seg = ".." then
      .error ("key prefix " ++ quote p ++ " must not contain " ++ quote seg)
    else (keptSegments p segs).map (seg :: ·)

/-- `cleanKeyPrefix`. -/
def cleanKeyPrefix (p : String) : Except String String :=
  let slashed := String.ofList (p.toList.map fun c => if c = '\\' then '/' else c)
  (keptSegments p (Path.parts slashed)).map Path.joinSlash

/-! ## The pointer -/

structure DHLatest where
  format : Int
  createdAt : String
  index : String
  deriving DecidableEq, Repr

/-- `unicode.IsControl`. -/
def isControl (c : Char) : Bool := c.toNat < 0x20 || (0x7F ≤ c.toNat && c.toNat < 0xA0)

/-- `latestIndexKey`. -/
def latestIndexKey (latestKey : String) (l : DHLatest) : Except String String :=
  let ref := l.index
  if ref = "" then .error "latest.json names no index"
  else if Path.rooted ref ∨ '\\' ∈ ref.toList then
    .error ("latest.json index " ++ quote ref ++ " must be a relative path with forward slashes")
  else if ref.toList.any (fun c => c == '?' || c == '#' || c == '%') ∨
      ref.toList.any isControl then
    .error ("latest.json index " ++ quote ref ++ " must be a plain path")
  else
    let segs := Path.parts ref
    if ':' ∈ (segs.headD "").toList then
      .error ("latest.json index " ++ quote ref ++ " must not start with a scheme")
    else if segs.any (· ∈ ["", ".", ".."]) then
      .error ("latest.json index " ++ quote ref ++
        " must not contain an empty, '.' or '..' segment")
    else .ok (Path.join [Path.dir latestKey, ref])

/-- `dhRelativeKey`. -/
def dhRelativeKey (fromKey key : String) : Except String String :=
  let dir := Path.dir fromKey
  if dir = "." then .ok key
  else
    match cutPrefix (dir ++ "/") key with
    | some rel => .ok rel
    | none => .error (key ++ " is not below the folder of " ++ fromKey)

end Konnekt.Snapshots
