import Konnekt.Snapshots.Index

/-!
# Uploads in parts

A client that builds an object out of others in one upload: it creates the upload, has
the parts copied and completes it, or aborts it after a failure. Every request goes
through the same retries, and the network may lose a request or the answer to it.
-/

namespace Konnekt.Snapshots

open Go

/-! ## The service -/

/-- An upload that is open, with the ETag and the bytes of each part it has. -/
structure Upload where
  key : String
  parts : AList fun _ : Nat => String × List UInt8

/-- A bucket: its objects, the keys written so far with the last one first, and the uploads by
their ids, without those that were completed or aborted. -/
structure Bucket where
  objects : GoMap (List UInt8)
  written : List String
  uploads : List (Option Upload)

/-- The requests of an upload in parts. -/
inductive UploadRequest where
  | create (key : String)
  | copyPart (key : String) (uploadID partNumber : Nat) (step : DHCopyStep)
  | complete (key : String) (uploadID : Nat) (etags : List String)
  | abort (key : String) (uploadID : Nat)
  deriving DecidableEq, Repr

/-- What the service answers: the result, or the status of a refusal. -/
inductive UploadAnswer where
  | created (uploadID : Nat)
  | copied (etag : String)
  | done
  | refused (status : Nat)
  deriving DecidableEq, Repr

/-- The upload of a key with this id, if it is open. -/
def Bucket.upload (b : Bucket) (key : String) (uploadID : Nat) : Option Upload :=
  match b.uploads[uploadID]? with
  | some (some u) => if u.key = key then some u else none
  | _ => none

/-- The bytes of the parts that are listed from a number on, if the upload has them all. -/
def Upload.listed (u : Upload) (i : Nat) : List String → Option (List (List UInt8))
  | [] => some []
  | etag :: etags =>
    match u.parts.lookup i with
    | none => none
    | some (etag', data) =>
      if etag' = etag then (u.listed (i + 1) etags).map (data :: ·) else none

section

variable (etagOf : List UInt8 → String)

/-- The service performs a request. -/
def serve : UploadRequest → Bucket → UploadAnswer × Bucket
  | .create key, b =>
    (.created b.uploads.length, { b with uploads := b.uploads ++ [some ⟨key, ∅⟩] })
  | .copyPart key uploadID n step, b =>
    match b.upload key uploadID with
    | none => (.refused 404, b)
    | some u =>
      match step.copied b.objects with
      | none => (.refused 404, b)
      | some data =>
        (.copied (etagOf data), { b with
          uploads := b.uploads.set uploadID
            (some { u with parts := u.parts.insert n (etagOf data, data) }) })
  | .complete key uploadID etags, b =>
    match b.upload key uploadID with
    | none => (.refused 404, b)
    | some u =>
      match u.listed 1 etags with
      | none => (.refused 400, b)
      | some datas =>
        (.done, ⟨b.objects.insert key datas.flatten, key :: b.written,
          b.uploads.set uploadID none⟩)
  | .abort key uploadID, b =>
    match b.upload key uploadID with
    | none => (.refused 404, b)
    | some _ => (.done, { b with uploads := b.uploads.set uploadID none })

/-! ## The network -/

/-- What becomes of the answer to a request that was performed: it arrives, or the connection
breaks, or a gateway answers in its place with a status of 500 or more, or it breaks off in its
body. -/
inductive Back where
  | answered | dropped | gateway | cut
  deriving DecidableEq, Repr

/-- What becomes of a request: it does not reach the service, and may be retried or not; it is
turned away with a status of 500 or more; or it is performed. -/
inductive Reach where
  | unreached (retryable : Bool)
  | unavailable
  | reached (back : Back)
  deriving DecidableEq, Repr

/-- One attempt at a request, and whether the context is cancelled by the end of it and of the
wait after it. -/
structure Fate where
  reach : Reach
  cancels : Bool
  deriving DecidableEq, Repr

/-- Why a call fails. -/
inductive CallError where
  | transport | status (n : Nat) | cancelled | invalid
  deriving DecidableEq, Repr

/-- `roundTrip`, with what becomes of each attempt that is left, and whether the context is
cancelled. It gives the answer, and whether the body of it is whole. -/
def roundTrip (request : UploadRequest) :
    List Fate → Bool → Bucket → Except CallError (UploadAnswer × Bool) × Bool × Bucket
  | [], cancelled, b => (.error .transport, cancelled, b)
  | fate :: fates, cancelled, b =>
    if cancelled then (.error .cancelled, true, b)
    else
      let again (e : CallError) (b : Bucket) :=
        if fates = [] then (.error e, fate.cancels, b)
        else if fate.cancels then (.error .cancelled, true, b)
        else roundTrip request fates false b
      match fate.reach with
      | .unreached false => (.error .transport, fate.cancels, b)
      | .unreached true => again .transport b
      | .unavailable => again (.status 503) b
      | .reached back =>
        let (answer, b) := serve etagOf request b
        match back with
        | .answered => (.ok (answer, true), fate.cancels, b)
        | .dropped => again .transport b
        | .gateway => again (.status 504) b
        | .cut => (.ok (answer, false), fate.cancels, b)

/-! ## The client -/

/-- `s3MaxAttempts` attempts. -/
abbrev Attempts := Fin 4 → Fate

/-- `decodeXMLResult`. -/
def decoded : Except CallError (UploadAnswer × Bool) → Except CallError UploadAnswer
  | .error e => .error e
  | .ok (.refused status, _) => .error (.status status)
  | .ok (_, false) => .error .transport
  | .ok (answer, true) => .ok answer

/-- `CreateMultipartUpload`. -/
def createMultipartUpload (key : String) (net : Attempts) (cancelled : Bool) (b : Bucket) :
    Except CallError Nat × Bool × Bucket :=
  let (result, cancelled, b) := roundTrip etagOf (.create key) (List.ofFn net) cancelled b
  match decoded result with
  | .ok (.created uploadID) => (.ok uploadID, cancelled, b)
  | .ok _ => (.error .invalid, cancelled, b)
  | .error e => (.error e, cancelled, b)

/-- Whether `UploadPartCopy` refuses the number or the range of a part. -/
def badPart (partNumber : Nat) (step : DHCopyStep) : Bool :=
  (partNumber < 1 || s3MaxMultipartParts < partNumber) ||
    match step.range with
    | none => false
    | some (first, last) => first < 0 || last < first

/-- `UploadPartCopy`. -/
def uploadPartCopy (key : String) (uploadID partNumber : Nat) (step : DHCopyStep) (net : Attempts)
    (cancelled : Bool) (b : Bucket) : Except CallError String × Bool × Bucket :=
  if badPart partNumber step then (.error .invalid, cancelled, b)
  else
    let (result, cancelled, b) :=
      roundTrip etagOf (.copyPart key uploadID partNumber step) (List.ofFn net) cancelled b
    match decoded result with
    | .ok (.copied etag) => (if etag = "" then .error .invalid else .ok etag, cancelled, b)
    | .ok _ => (.error .invalid, cancelled, b)
    | .error e => (.error e, cancelled, b)

/-- `CompleteMultipartUpload`. -/
def completeMultipartUpload (key : String) (uploadID : Nat) (etags : List String) (net : Attempts)
    (cancelled : Bool) (b : Bucket) : Except CallError Unit × Bool × Bucket :=
  if etags.length = 0 ∨ s3MaxMultipartParts < etags.length then (.error .invalid, cancelled, b)
  else
    let (result, cancelled, b) :=
      roundTrip etagOf (.complete key uploadID etags) (List.ofFn net) cancelled b
    match decoded result with
    | .ok _ => (.ok (), cancelled, b)
    | .error e => (.error e, cancelled, b)

/-- `AbortMultipartUpload`: an upload that is gone is no error. -/
def abortMultipartUpload (key : String) (uploadID : Nat) (net : Attempts) (b : Bucket) :
    Option CallError × Bucket :=
  let (result, _, b) := roundTrip etagOf (.abort key uploadID) (List.ofFn net) false b
  match result with
  | .ok (.refused status, _) => (if status = 404 then none else some (.status status), b)
  | .ok _ => (none, b)
  | .error e => (some e, b)

/-! ## Assembling an object -/

/-- The network of an assembly: the attempts of each of its calls. -/
structure AssembleNet where
  create : Attempts
  copy : Nat → Attempts
  complete : Attempts
  abort : Attempts

/-- Why an assembly fails: it is refused before the first request, or a call fails, and perhaps
the abort after it too. -/
inductive AssembleError where
  | nothing
  | tooMany (count : Nat)
  | failed (e : CallError) (abort : Option CallError)
  deriving DecidableEq, Repr

/-- `copySteps`, from a step on and with the ETags so far. -/
def copySteps (key : String) (uploadID : Nat) (net : Nat → Attempts) (i : Nat)
    (etags : List String) :
    List DHCopyStep → Bool → Bucket → Except CallError (List String) × Bool × Bucket
  | [], cancelled, b => (.ok etags, cancelled, b)
  | step :: steps, cancelled, b =>
    if cancelled then (.error .cancelled, true, b)
    else match uploadPartCopy etagOf key uploadID (i + 1) step (net i) false b with
      | (.error e, cancelled, b) => (.error e, cancelled, b)
      | (.ok etag, cancelled, b) =>
        copySteps key uploadID net (i + 1) (etags ++ [etag]) steps cancelled b

/-- `assembleDHObject`. -/
def assembleDHObject (net : AssembleNet) (key : String) (steps : List DHCopyStep)
    (cancelled : Bool) (b : Bucket) : Option AssembleError × Bucket :=
  if steps.length = 0 then (some .nothing, b)
  else if s3MaxMultipartParts < steps.length then (some (.tooMany steps.length), b)
  else match createMultipartUpload etagOf key net.create cancelled b with
    | (.error e, _, b) => (some (.failed e none), b)
    | (.ok uploadID, cancelled, b) =>
      let failed (e : CallError) (b : Bucket) :=
        let (aborted, b) := abortMultipartUpload etagOf key uploadID net.abort b
        (some (.failed e aborted), b)
      match copySteps etagOf key uploadID net.copy 0 [] steps cancelled b with
      | (.error e, _, b) => failed e b
      | (.ok etags, cancelled, b) =>
        match completeMultipartUpload etagOf key uploadID etags net.complete cancelled b with
        | (.error e, _, b) => failed e b
        | (.ok (), _, b) => (none, b)

end

end Konnekt.Snapshots
