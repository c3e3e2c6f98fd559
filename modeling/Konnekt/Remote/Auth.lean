import Konnekt.Go.Map
import Konnekt.Go.Text

/-!
# Who may use Remote Access

One password, the devices the desktop has approved, and the sessions those devices
hold. What happens under the service's lock is one function here: checking a
password, which takes long, stands between two of them. Times are nanoseconds
since the Unix epoch.
-/

namespace Konnekt.Remote

open Go

/-- The parts of a URL the service looks at. -/
structure Url where
  scheme : String
  user : Bool
  hostname : String
  path : String
  rawQuery : String
  fragment : String
  deriving DecidableEq, Repr

/-- What the service takes from the libraries it uses. -/
structure Platform where
  /-- `remoteTokenHash`. -/
  tokenHash : String → String
  /-- `verifyRemotePassword`. -/
  verify : String → String → Bool
  /-- The S256 challenge of a verifier. -/
  challengeOf : String → String
  /-- `unicode.IsPrint`. -/
  isPrint : Char → Bool
  /-- `strings.ToLower`. -/
  toLower : String → String
  /-- `strings.EqualFold`. -/
  equalFold : String → String → Bool
  /-- `url.Parse`. -/
  parseURL : String → Option Url

/-- What `crypto/rand` gives a call: its tokens, its id and its code. -/
structure Draws where
  id : Except String String := .error "remote: id"
  token : Except String String := .error "remote: token"
  refresh : Except String String := .error "remote: token"
  code : Except String String := .error "remote: code"

/-! ## Limits -/

def seconds (n : Nat) : Nat := n * 10 ^ 9

def remoteSessionIdle : Nat := seconds 3600
def remoteSessionMax : Nat := seconds (12 * 3600)
def remotePendingTTL : Nat := seconds 300
def remoteGrantTTL : Nat := seconds 60
def remoteMaxPending : Nat := 3
def remoteMaxDevices : Nat := 16
def remotePasswordMin : Nat := 12
def remotePasswordMax : Nat := 256
def remoteNameMax : Nat := 40
def remoteAgentMax : Nat := 120
def remoteLoginFree : Nat := 5
def remoteLoginBase : Nat := seconds 5
def remoteLoginCap : Nat := seconds 900
def remoteLoginQuiet : Nat := seconds 3600

def errRemotePasswordLength : String := "the password must be 12 to 256 characters"
def errRemoteDeviceName : String := "the device name must be 1 to 40 printable characters"
def errRemoteDeviceExists : String := "another device already has that name"
def errRemoteDeviceUnknown : String := "no such device"
def errRemoteRequestGone : String := "that request has expired or was already answered"
def errRemoteDevicesFull : String := "at most 16 devices can be approved; remove one first"

/-! ## State -/

/-- `remoteDeviceRecord`. -/
structure DeviceRecord where
  id : String
  name : String
  tokenHash : String
  approvedAt : Nat
  lastSeen : Nat := 0
  host : String
  deriving DecidableEq, Repr

/-- `remoteGrantRecord`. -/
structure GrantRecord where
  id : String
  client : String
  clientID : String
  redirect : String
  scopes : List String
  resource : String
  accessHash : String := ""
  accessExpires : Nat := 0
  refreshHash : String := ""
  prevRefreshHash : String := ""
  created : Nat
  lastUsed : Nat := 0
  deriving DecidableEq, Repr

/-- `remoteAuthState`, what `remote.json` holds of it. -/
structure RemoteAuthState where
  password : String := ""
  devices : List DeviceRecord := []
  grants : List GrantRecord := []
  deriving DecidableEq, Repr

/-- `remoteSessionEntry`. -/
structure SessionEntry where
  id : String
  deviceID : String
  created : Nat
  lastSeen : Nat
  deriving DecidableEq, Repr

/-- `remotePendingEntry`. -/
structure PendingEntry where
  id : String
  tokenHash : String
  code : String
  userAgent : String
  host : String
  requested : Nat
  expires : Nat
  granted : Bool := false
  deviceID : String := ""
  deriving DecidableEq, Repr

/-- `remoteLoginBucket`. -/
structure LoginBucket where
  failures : Nat := 0
  lastFailure : Nat := 0
  lockedUntil : Nat := 0
  busy : Bool := false
  deriving DecidableEq, Repr

/-- The wait after a number of failures past the free ones. -/
def remoteLoginWait (failures : Nat) : Nat :=
  if failures < 16 then min (remoteLoginBase * 2 ^ failures) remoteLoginCap else remoteLoginCap

/-- A bucket once a check of it has ended. -/
def LoginBucket.ended (now : Nat) (ok : Bool) (b : LoginBucket) : LoginBucket :=
  let b := { b with busy := false }
  if ok then { b with failures := 0, lockedUntil := 0 }
  else
    let b := { b with failures := b.failures + 1, lastFailure := now }
    if remoteLoginFree ≤ b.failures then
      { b with lockedUntil := now + remoteLoginWait (b.failures - remoteLoginFree) }
    else b

/-- `remoteOAuthClient`. -/
structure OAuthClient where
  id : String
  name : String
  host : String
  redirects : List String
  deriving DecidableEq, Repr

/-- `remoteConsent`. -/
structure Consent where
  id : String
  csrf : String
  client : OAuthClient
  redirectURI : String
  state : String
  challenge : String
  scopes : List String
  resource : String
  created : Nat
  waiting : Bool := false
  decided : Bool := false
  granted : List String := []
  code : String := ""
  deny : String := ""
  deriving DecidableEq, Repr

/-- `remoteCode`. -/
structure AuthCode where
  client : OAuthClient
  redirectURI : String
  challenge : String
  scopes : List String
  resource : String
  expires : Nat
  deriving DecidableEq, Repr

/-- `RemoteAuth`, with `remote.json` as it was last written. Sessions and codes are kept by the
hash of their token. -/
structure RemoteAuth where
  state : RemoteAuthState := {}
  saved : RemoteAuthState := {}
  sessions : GoMap SessionEntry := ∅
  pending : GoMap PendingEntry := ∅
  buckets : GoMap LoginBucket := ∅
  consents : GoMap Consent := ∅
  codes : GoMap AuthCode := ∅

/-- `remoteTokens`. -/
structure RemoteTokens where
  access : String
  refresh : String := ""
  expiresIn : Nat
  scopes : List String
  deriving DecidableEq, Repr

/-- A sign-in request, with its body if that could be read. -/
structure LoginRequest where
  contentType : String
  password : Option String
  deviceToken : String
  userAgent : String
  host : String
  deriving DecidableEq, Repr

/-- A sign-in whose password is being checked. -/
structure SignIn where
  key : String
  encoded : String
  password : String
  deviceToken : String
  userAgent : String
  host : String
  deriving DecidableEq, Repr

/-- What a call answers, with the records it made. -/
inductive Outcome where
  | done
  | failed (err : String)
  | refused (status : Nat) (message : String)
  /-- 429 with how long to wait. -/
  | retry (wait : Nat)
  /-- A password is being checked. -/
  | verifying
  /-- The sessions a revocation ended. -/
  | revoked (sessions : List String)
  | approved (request device : String)
  | signedIn (token session device : String)
  | requested (request token code : String)
  | waiting (code : String)
  | collected (request token session device : String)
  | session (id device : String)
  | alive (yes : Bool)
  /-- A consent page, with what it tells. -/
  | page (status : Nat) (message : String)
  | consentPage (consent : String)
  /-- The desktop is asked about a consent. -/
  | asked (consent : String)
  | decided (consent code : String)
  | redirected (target : String) (params : List (String × String))
  | issued (grant : String) (tokens : RemoteTokens)
  | replayed (grant : String)
  | bearer (grant : String) (scopes : List String)
  deriving DecidableEq, Repr

namespace RemoteAuth

/-- `saveLocked`, which may fail. -/
def saveLocked (fault : Option String) (a : RemoteAuth) : Except String RemoteAuth :=
  match fault with
  | some err => .error err
  | none => .ok { a with saved := a.state }

/-- A save of which the error is only logged. -/
def trySave (fault : Option String) (a : RemoteAuth) : RemoteAuth :=
  match a.saveLocked fault with
  | .ok a => a
  | .error _ => a

/-! ## Password and sessions -/

/-- `dropSessionsLocked`: the ids of the sessions it ends. -/
def dropSessionsLocked (p : SessionEntry → Bool) (a : RemoteAuth) : List String × RemoteAuth :=
  ((a.sessions.values.filter p).map (·.id), { a with sessions := a.sessions.deleteIf p })

/-- `SetPassword`, once the hash is computed. -/
def setPassword (hash : Except String String) (save again : Option String) (password : String)
    (a : RemoteAuth) : Outcome × RemoteAuth :=
  if password.length < remotePasswordMin ∨ remotePasswordMax < password.length then
    (.failed errRemotePasswordLength, a)
  else match hash with
    | .error err => (.failed err, a)
    | .ok hash =>
      match { a with state.password := hash }.saveLocked save with
      | .error err => (.failed err, a)
      | .ok a =>
        let a := { a with buckets := ∅, pending := ∅, consents := ∅, codes := ∅ }
        let (revoked, a) := a.dropSessionsLocked fun _ => true
        let grants := a.state.grants
        let a := { a with state.grants := [] }
        (.revoked revoked, if grants.isEmpty then a else a.trySave again)

def remoteSessionExpired (s : SessionEntry) (now : Nat) : Bool :=
  s.lastSeen + remoteSessionIdle < now || s.created + remoteSessionMax < now

def deviceLocked (id : String) (a : RemoteAuth) : Option DeviceRecord :=
  a.state.devices.find? (·.id = id)

variable (lib : Platform) (now : Nat)

def deviceByTokenLocked (token : String) (a : RemoteAuth) : Option DeviceRecord :=
  if token = "" then none else a.state.devices.find? (·.tokenHash = lib.tokenHash token)

/-- `Authorize` on the value of the session cookie. -/
def authorize (token : String) (a : RemoteAuth) : Outcome × RemoteAuth :=
  if token = "" then (.failed "no session cookie", a)
  else
    let key := lib.tokenHash token
    match a.sessions.lookup key with
    | none => (.failed "unknown session", a)
    | some s =>
      if remoteSessionExpired s now then
        (.failed "session expired", { a with sessions := a.sessions.erase key })
      else match a.deviceLocked s.deviceID with
        | none =>
          (.failed "session's device was removed", { a with sessions := a.sessions.erase key })
        | some device =>
          (.session s.id device.name,
            { a with sessions := a.sessions.insert key { s with lastSeen := now } })

/-- `SessionAlive`. -/
def sessionAlive (id : String) (a : RemoteAuth) : Outcome × RemoteAuth :=
  match a.sessions.entries.find? (·.2.id = id) with
  | none => (.alive false, a)
  | some ⟨key, s⟩ =>
    if remoteSessionExpired s now || (a.deviceLocked s.deviceID).isNone then
      (.alive false, { a with sessions := a.sessions.erase key })
    else (.alive true, { a with sessions := a.sessions.insert key { s with lastSeen := now } })

/-- A device's last use, in milliseconds. -/
def seen (id : String) (a : RemoteAuth) : RemoteAuth :=
  { a with state.devices := a.state.devices.map fun d =>
      if d.id = id then { d with lastSeen := now / 10 ^ 6 } else d }

/-- `issueSessionLocked`: the token and the id of the new session. -/
def issueSessionLocked (draws : Draws) (save : Option String) (device : DeviceRecord)
    (a : RemoteAuth) : Except String (String × String) × RemoteAuth :=
  match draws.token, draws.id with
  | .error err, _ | _, .error err => (.error err, a)
  | .ok token, .ok id =>
    let sessions := a.sessions.deleteIf (remoteSessionExpired · now)
    let a := { a with sessions := sessions.insert (lib.tokenHash token) ⟨id, device.id, now, now⟩ }
    (.ok (token, id), (a.seen now device.id).trySave save)

/-- `RevokeSessions`. -/
def revokeSessions (a : RemoteAuth) : Outcome × RemoteAuth :=
  let (ids, a) := a.dropSessionsLocked fun _ => true
  (.revoked ids, a)

/-- `ServeLogout`, of one session. -/
def serveLogout (token : String) (a : RemoteAuth) : Outcome × RemoteAuth :=
  let key := lib.tokenHash token
  match if token = "" then none else a.sessions.lookup key with
  | none => (.revoked [], a)
  | some s => (.revoked [s.id], { a with sessions := a.sessions.erase key })

/-! ## Devices -/

def prunePendingLocked (a : RemoteAuth) : RemoteAuth :=
  { a with pending := a.pending.deleteIf fun p => p.expires < now }

/-- `cleanRemoteName`. -/
def cleanRemoteName (name : String) : Except String String :=
  let name := trimSpace name
  if name = "" ∨ remoteNameMax < name.length then .error errRemoteDeviceName
  else if name.toList.all lib.isPrint then .ok name
  else .error errRemoteDeviceName

/-- The request a desktop answer is about. -/
def openRequest (requestID : String) (a : RemoteAuth) : Option PendingEntry :=
  (a.pending.lookup requestID).filter (! ·.granted)

/-- `ApproveDevice`. -/
def approveDevice (draws : Draws) (save : Option String) (requestID name : String)
    (a : RemoteAuth) : Outcome × RemoteAuth :=
  match cleanRemoteName lib name with
  | .error err => (.failed err, a)
  | .ok name =>
    let a := a.prunePendingLocked now
    match a.openRequest requestID with
    | none => (.failed errRemoteRequestGone, a)
    | some p =>
      if remoteMaxDevices ≤ a.state.devices.length then (.failed errRemoteDevicesFull, a)
      else if a.state.devices.any fun d => lib.equalFold d.name name then
        (.failed errRemoteDeviceExists, a)
      else match draws.id with
        | .error err => (.failed err, a)
        | .ok id =>
          let device : DeviceRecord :=
            { id, name, tokenHash := p.tokenHash, approvedAt := now / 10 ^ 6, host := p.host }
          match { a with state.devices := a.state.devices ++ [device] }.saveLocked save with
          | .error err => (.failed err, a)
          | .ok a =>
            let p := { p with granted := true, deviceID := id, expires := now + remoteGrantTTL }
            (.approved requestID id, { a with pending := a.pending.insert requestID p })

/-- `DenyDevice`. -/
def denyDevice (requestID : String) (a : RemoteAuth) : Outcome × RemoteAuth :=
  let a := a.prunePendingLocked now
  match a.openRequest requestID with
  | none => (.failed errRemoteRequestGone, a)
  | some _ => (.done, { a with pending := a.pending.erase requestID })

/-- The records and sessions of some devices removed together. -/
def dropDevices (gone : List String) (a : RemoteAuth) : List String × RemoteAuth :=
  { a with buckets := gone.foldl (fun m id => m.erase id) a.buckets }.dropSessionsLocked
    fun s => s.deviceID ∈ gone

/-- `RemoveDevice`. -/
def removeDevice (save : Option String) (deviceID : String) (a : RemoteAuth) :
    Outcome × RemoteAuth :=
  if (a.deviceLocked deviceID).isNone then (.failed errRemoteDeviceUnknown, a)
  else
    let kept := a.state.devices.filter (·.id ≠ deviceID)
    match { a with state.devices := kept }.saveLocked save with
    | .error err => (.failed err, a)
    | .ok a =>
      let (ids, a) := a.dropDevices [deviceID]
      (.revoked ids, a)

/-- `ForgetHost`. -/
def forgetHost (save : Option String) (host : String) (a : RemoteAuth) : Outcome × RemoteAuth :=
  let host := lib.toLower host
  if host = "" then (.revoked [], a)
  else
    let gone := (a.state.devices.filter (·.host = host)).map (·.id)
    let kept := a.state.devices.filter (·.host ≠ host)
    let a := { a with pending := a.pending.deleteIf (·.host = host) }
    if gone = [] then (.revoked [], a)
    else match { a with state.devices := kept }.saveLocked save with
      | .error err => (.failed err, a)
      | .ok a =>
        let (ids, a) := a.dropDevices gone
        (.revoked ids, a)

/-! ## Backoff -/

/-- `beginLoginLocked`: how long to wait, or nothing when a check may begin. -/
def beginLoginLocked (key : String) (a : RemoteAuth) : Option Nat × RemoteAuth :=
  let b := (a.buckets.lookup key).getD {}
  let b := if 0 < b.failures ∧ b.lastFailure + remoteLoginQuiet < now then { b with failures := 0 }
    else b
  if now < b.lockedUntil then
    (some (b.lockedUntil - now), { a with buckets := a.buckets.insert key b })
  else if b.busy then (some (seconds 1), { a with buckets := a.buckets.insert key b })
  else (none, { a with buckets := a.buckets.insert key { b with busy := true } })

def loginBusyLocked (key : String) (a : RemoteAuth) : Bool :=
  ((a.buckets.lookup key).map (·.busy)).getD false

/-- `endLoginLocked`. -/
def endLoginLocked (key : String) (ok : Bool) (a : RemoteAuth) : RemoteAuth :=
  match a.buckets.lookup key with
  | none => a
  | some b => { a with buckets := a.buckets.insert key (b.ended now ok) }

/-! ## Signing in -/

/-- Whether a password is right: one longer than any that can be set is not looked at. -/
def passwordRight (password encoded : String) : Bool :=
  password.utf8ByteSize ≤ remotePasswordMax * 4 && lib.verify password encoded

/-- `ServeLogin` up to the check of the password. -/
def serveLogin (r : LoginRequest) (a : RemoteAuth) : Except Outcome SignIn × RemoteAuth :=
  if ¬ "application/json".toList <+: r.contentType.toList then
    (.error (.refused 415 "expected application/json"), a)
  else match r.password with
    | none | some "" => (.error (.refused 400 "malformed request"), a)
    | some password =>
      let encoded := a.state.password
      if encoded = "" then
        (.error (.refused 403 "Remote sign-in has not been set up on the desktop."), a)
      else
        let key := ((a.deviceByTokenLocked lib r.deviceToken).map (·.id)).getD ""
        match a.beginLoginLocked now key with
        | (some wait, a) => (.error (.retry wait), a)
        | (none, a) => (.ok ⟨key, encoded, password, r.deviceToken, r.userAgent, r.host⟩, a)

/-- `cleanRemoteAgent`. -/
def cleanRemoteAgent (ua : String) : String :=
  String.ofList ((ua.toList.filter lib.isPrint).take remoteAgentMax)

/-- `newPendingLocked`. -/
def newPendingLocked (draws : Draws) (userAgent host : String) (a : RemoteAuth) :
    Outcome × RemoteAuth :=
  match draws.token, draws.id, draws.code with
  | .ok token, .ok id, .ok code =>
    let p : PendingEntry :=
      { id, tokenHash := lib.tokenHash token, code, userAgent := cleanRemoteAgent lib userAgent,
        host := lib.toLower host, requested := now, expires := now + remotePendingTTL }
    (.requested id token code, { a with pending := a.pending.insert id p })
  | _, _, _ => (.refused 500 "sign-in failed", a)

/-- `servePendingLocked`. -/
def servePendingLocked (draws : Draws) (f : SignIn) (a : RemoteAuth) : Outcome × RemoteAuth :=
  let a := a.prunePendingLocked now
  let own := if f.deviceToken = "" then none else
    a.pending.values.find? fun p => p.tokenHash = lib.tokenHash f.deviceToken && ! p.granted
  match own with
  | some p => (.waiting p.code, a)
  | none =>
    if remoteMaxPending ≤ a.pending.values.length then
      (.retry (a.pending.values.foldl (fun soonest p => min soonest (p.expires - now))
        remotePendingTTL), a)
    else newPendingLocked lib now draws f.userAgent f.host a

/-- `ServeLogin` from the check of the password on. -/
def serveLoginChecked (draws : Draws) (save : Option String) (f : SignIn) (a : RemoteAuth) :
    Outcome × RemoteAuth :=
  let ok := passwordRight lib f.password f.encoded
  let a := a.endLoginLocked now f.key ok
  if ! ok then (.refused 401 "wrong password", a)
  else match a.deviceByTokenLocked lib f.deviceToken with
    | none => servePendingLocked lib now draws f a
    | some d =>
      let a := { a with pending := a.pending.deleteIf (·.deviceID = d.id) }
      match issueSessionLocked lib now draws save d a with
      | (.error _, a) => (.refused 500 "sign-in failed", a)
      | (.ok (token, id), a) => (.signedIn token id d.id, a)

def declined : String := "The request was declined or has expired. Sign in again."

/-- `ServeLoginWait`. -/
def serveLoginWait (draws : Draws) (save : Option String) (deviceToken : String)
    (a : RemoteAuth) : Outcome × RemoteAuth :=
  let a := a.prunePendingLocked now
  let request := if deviceToken = "" then none else
    a.pending.entries.find? (·.2.tokenHash = lib.tokenHash deviceToken)
  match request with
  | none => (.refused 403 declined, a)
  | some ⟨_, p⟩ =>
    if ! p.granted then (.waiting p.code, a)
    else
      let a := { a with pending := a.pending.erase p.id }
      match a.deviceLocked p.deviceID with
      | none => (.refused 403 declined, a)
      | some device =>
        match issueSessionLocked lib now draws save device a with
        | (.error _, a) => (.refused 500 "sign-in failed", a)
        | (.ok (token, id), a) => (.collected p.id token id device.id, a)

end RemoteAuth

end Konnekt.Remote
