import Konnekt.Snapshots.Prune

/-!
# A destination and its link record

A destination is a bucket with a prefix. A snapshot is published under the prefix of the
destination and of the node that publishes; what the record keeps of it is what Copy link
and a change of the link find it by.
-/

namespace Konnekt.Snapshots

open Go

/-! ## Destinations -/

structure Destination where
  name : String
  endpoint : String
  region : String
  bucket : String
  keyPrefix : String
  publicBaseURL : String
  accessKeyID : String
  secretSet : Bool
  privateLink : Bool
  deriving DecidableEq, Repr

/-- What `url.Parse` reads of an address. -/
structure ParsedURL where
  scheme : String
  host : String
  path : String
  rawQuery : String
  user : Bool
  deriving DecidableEq, Repr

def destinationDefaultRegion : String := "auto"

/-- The error of `NewS3Client`, without its lead. -/
def newS3Client (parseURL : String → Option ParsedURL)
    (endpoint region bucket accessKeyID secretAccessKey : String) : Except String Unit :=
  let endpoint := trimSpace endpoint
  if endpoint = "" ∨ region = "" ∨ bucket = "" ∨ accessKeyID = "" ∨ secretAccessKey = "" then
    .error "endpoint, region, bucket, access key id and secret are all required"
  else
    let endpoint := if "://".toList <:+: endpoint.toList then endpoint else "https://" ++ endpoint
    match parseURL endpoint with
    | none => .error "endpoint must be an http(s) address"
    | some base =>
      if base.host = "" ∨ (base.scheme ≠ "https" ∧ base.scheme ≠ "http") then
        .error "endpoint must be an http(s) address"
      else if trimSlashes base.path ≠ "" ∨ base.rawQuery ≠ "" ∨ base.user = true then
        .error "endpoint must be a host only, without a path or credentials"
      else if '/' ∈ bucket.toList then .error "bucket name must not contain a slash"
      else .ok ()

/-- `strings.TrimRight` of slashes. -/
def trimRightSlashes (s : String) : String :=
  String.ofList (s.toList.reverse.dropWhile (· == '/')).reverse

/-- `normalizeDestination`. -/
def normalizeDestination (parseURL : String → Option ParsedURL) (d : Destination) :
    Except String Destination :=
  let region := trimSpace d.region
  let d : Destination := {
    name := trimSpace d.name
    endpoint := trimSpace d.endpoint
    region := if region = "" then destinationDefaultRegion else region
    bucket := trimSpace d.bucket
    keyPrefix := trimSlashes (trimSpace d.keyPrefix)
    publicBaseURL := trimRightSlashes (trimSpace d.publicBaseURL)
    accessKeyID := trimSpace d.accessKeyID
    secretSet := false
    privateLink := false }
  if d.name = "" then .error "name is required"
  else if d.endpoint = "" then .error "endpoint is required"
  else if d.bucket = "" then .error "bucket is required"
  else if d.accessKeyID = "" then .error "access key id is required"
  else do
    newS3Client parseURL d.endpoint d.region d.bucket d.accessKeyID "x"
    if d.publicBaseURL = "" then .ok d
    else match parseURL d.publicBaseURL with
      | none => .error "public base URL must be an http(s) address"
      | some u =>
        if u.host = "" ∨ (u.scheme ≠ "https" ∧ u.scheme ≠ "http") ∨ u.user = true then
          .error "public base URL must be an http(s) address"
        else .ok d

/-- `joinKey`. -/
def joinKey (elems : List String) : String :=
  Path.joinSlash ((elems.map trimSlashes).filter (· ≠ ""))

/-! ## The link record -/

structure DHStaleBase where
  token : String
  keyPrefix : String
  deriving DecidableEq, Repr

/-- `dhLinkRecord`. -/
structure DHLinkRecord where
  token : String
  pending : String
  keyPrefix : String
  stale : List DHStaleBase
  deriving DecidableEq, Repr

/-- The change that `RecordLinkPrefix` makes, or the error that it ends with. -/
def DHLinkRecord.recordLinkPrefix (r : DHLinkRecord) (p : String) : Except String DHLinkRecord :=
  (cleanKeyPrefix p).map fun clean => { r with keyPrefix := clean }

/-- The record after a publish has noted where it has put the snapshot: a failure is a warning. -/
def DHLinkRecord.noted (r : DHLinkRecord) (p : String) : DHLinkRecord :=
  match r.recordLinkPrefix p with
  | .error _ => r
  | .ok r' => r'

/-- `time.Unix(0, 0)`. -/
def unixEpoch : UTCTime := ⟨1970, 1, 1, 0, 0, 0⟩

/-- `dhBaseKeys`. -/
def dhBaseKeys (keyPrefix token : String) : Except String SnapshotKeys :=
  snapshotKeys keyPrefix token (snapshotTime unixEpoch)

/-- The key that `GetSnapshotLink` gives the address of. -/
def DHLinkRecord.getSnapshotLink (r : DHLinkRecord) : Except String String :=
  if r.keyPrefix = "" then
    .error ("nothing has been published to this destination yet, so there is no link to copy: " ++
      "run a Publish DH Snapshot block first")
  else (dhBaseKeys r.keyPrefix r.token).map (·.latest)

/-- The base that `change` moves the snapshot out of and then has deleted, if it moves any. -/
def DHLinkRecord.movedBase (r : DHLinkRecord) : Option SnapshotKeys :=
  if r.keyPrefix ≠ "" then (dhBaseKeys r.keyPrefix r.token).toOption else none

end Konnekt.Snapshots
