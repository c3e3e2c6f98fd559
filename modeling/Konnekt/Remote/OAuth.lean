import Konnekt.Go.Number
import Konnekt.Remote.Grants

/-!
# Consents and codes

How a connector earns a grant: a consent page on which the password is typed, the
desktop's answer, and a code the client exchanges once.
-/

namespace Konnekt.Remote

open Go

def remoteClaudeRedirect : String := "https://claude.ai/api/mcp/auth_callback"
def remoteConsentTTL : Nat := seconds 300
def remoteCodeTTL : Nat := seconds 120
def remoteMaxConsents : Nat := 8
def remoteClientUnused : Nat := seconds (30 * 24 * 3600)
def remoteConsentKey : String := "oauth"
def remoteAuthorizeWaitPath : String := "/authorize/wait"
def remoteConsentExpired : String :=
  "This sign-in page has expired. Go back to Claude and start again."
def errRemoteCode : String := "the code is unknown, expired, spent, or not this client's"
def errRemoteTarget : String := "the resource is not the one the code was issued for"
def errRemoteClientUnknown : String :=
  "the client is not registered with Konnekt; sign in again from Claude"
def errCIMDURL : String := "a client_id URL is https://claude.ai with a path, and nothing else"
def errCIMDDoc : String := "the client metadata document is not what the URL promised"

/-! ## Redirects -/

/-- `remoteIssuer`. -/
def remoteIssuer (lib : Platform) (host : String) : String :=
  let resource := (remoteResource lib host).toList
  String.ofList (resource.take (resource.length - remoteMCPPath.length))

def remoteLoopbackHost (h : String) : Bool := h = "localhost" || h = "127.0.0.1" || h = "::1"

/-- `validRedirectURI`. -/
def validRedirectURI (lib : Platform) (raw : String) : Bool :=
  raw = remoteClaudeRedirect ||
    match lib.parseURL raw with
    | none => false
    | some u =>
      u.scheme = "http" && ! u.user && u.rawQuery = "" && u.fragment = "" &&
        u.path = "/callback" && remoteLoopbackHost u.hostname

/-- `remoteRedirectRegistered`. -/
def remoteRedirectRegistered (lib : Platform) (registered : List String) (requested : String) :
    Bool :=
  requested ∈ registered ||
    match lib.parseURL requested with
    | none => false
    | some want =>
      remoteLoopbackHost want.hostname && registered.any fun r =>
        match lib.parseURL r with
        | none => false
        | some u =>
          u.scheme = want.scheme && u.path = want.path && remoteLoopbackHost u.hostname &&
            u.hostname = want.hostname

/-- `redirectError`. -/
def redirectError (lib : Platform) (host redirect state code description : String) : Outcome :=
  .redirected redirect [("error", code), ("error_description", description), ("state", state),
    ("iss", remoteIssuer lib host)]

/-- `validPKCEChallenge`. -/
def validPKCEChallenge (c : String) : Bool :=
  c.length = 43 && c.toList.all fun r =>
    ('A' ≤ r && r ≤ 'Z') || ('a' ≤ r && r ≤ 'z') || ('0' ≤ r && r ≤ '9') || r = '-' || r = '_'

/-- `pkceMatches`. -/
def pkceMatches (lib : Platform) (verifier challenge : String) : Bool :=
  43 ≤ verifier.utf8ByteSize && verifier.utf8ByteSize ≤ 128 && lib.challengeOf verifier = challenge

/-- `Duration.String` of a duration rounded to seconds. -/
def durationText (wait : Nat) : String :=
  let s := (wait + 5 * 10 ^ 8) / 10 ^ 9
  (if 3600 ≤ s then s!"{s / 3600}h" else "") ++
    (if 60 ≤ s then s!"{s / 60 % 60}m" else "") ++ s!"{s % 60}s"

/-! ## Clients -/

/-- `remoteClientRecord`. -/
structure ClientRecord where
  id : String
  name : String
  redirectURIs : List String
  created : Nat
  lastUsed : Nat := 0
  deriving DecidableEq, Repr

/-- `cimdDocument`, what is read of it once it is fetched. -/
structure CimdDocument where
  clientName : String
  redirectURIs : List String
  tokenEndpointAuthMethod : String
  deriving DecidableEq, Repr

/-- `pruneClientsLocked`. -/
def pruneClientsLocked (now : Nat) (clients : List ClientRecord) : List ClientRecord :=
  clients.filter fun c => unix now < max c.lastUsed c.created + unix remoteClientUnused

/-- `resolveClient`, with the registered clients and what fetching the document gives. -/
def resolveClient (lib : Platform) (now : Nat) (clients : List ClientRecord)
    (fetched : Except String CimdDocument) (clientID : String) : Except String OAuthClient :=
  if "https://".toList <+: clientID.toList then
    match fetched with
    | .error err => .error err
    | .ok doc =>
      if doc.tokenEndpointAuthMethod ≠ "" ∧ doc.tokenEndpointAuthMethod ≠ "none" then
        .error (errCIMDDoc ++ ": public clients only")
      else match lib.parseURL clientID with
        | none => .error errCIMDURL
        | some u =>
          let name := if trimSpace doc.clientName = "" then u.hostname else doc.clientName
          .ok ⟨clientID, cleanRemoteClient lib name, u.hostname, doc.redirectURIs⟩
  else match (pruneClientsLocked now clients).find? (·.id = clientID) with
    | none => .error errRemoteClientUnknown
    | some c => .ok ⟨c.id, c.name, "", c.redirectURIs⟩

/-! ## Requests -/

/-- `GET /authorize`, with the clients that were registered then and the document fetched. -/
structure AuthorizeRequest where
  clientID : String
  registered : List ClientRecord
  fetched : Except String CimdDocument
  redirectURI : String
  state : String
  responseType : String
  challenge : String
  challengeMethod : String
  resource : String
  scope : String
  host : String

/-- The client an authorize request comes from. -/
def AuthorizeRequest.resolved (lib : Platform) (now : Nat) (r : AuthorizeRequest) :
    Except String OAuthClient :=
  resolveClient lib now r.registered r.fetched r.clientID

/-- The redirect an authorize request asks for. -/
def AuthorizeRequest.redirect (r : AuthorizeRequest) (client : OAuthClient) : String :=
  if r.redirectURI = "" then
    match client.redirects with
    | [only] => only
    | _ => ""
  else r.redirectURI

/-- The scopes an authorize request asks for. -/
def AuthorizeRequest.scopes (r : AuthorizeRequest) : List String :=
  let scopes := fields r.scope
  normalizeRemoteScopes (if scopes = [] then [remoteScopeRead] else scopes)

/-- The form of a consent page, if it could be read. -/
structure ConsentForm where
  contentType : String
  parsed : Bool
  request : String
  csrf : String
  deny : Bool
  scopes : List String
  password : String
  host : String
  deriving DecidableEq, Repr

/-- A consent whose password is being checked. -/
structure ConsentSubmit where
  request : String
  csrf : String
  encoded : String
  password : String
  granted : List String
  deriving DecidableEq, Repr

/-- A code presented for tokens. -/
structure CodeExchange where
  code : String
  verifier : String
  clientID : String
  redirect : String
  resource : String
  deriving DecidableEq, Repr

namespace RemoteAuth

variable (lib : Platform) (now : Nat)

def pruneConsentsLocked (a : RemoteAuth) : RemoteAuth :=
  { a with consents := a.consents.deleteIf fun c => c.created + remoteConsentTTL < now }

def pruneCodesLocked (a : RemoteAuth) : RemoteAuth :=
  { a with codes := a.codes.deleteIf fun c => c.expires ≤ now }

/-- `consentLocked`, of what is left after pruning. -/
def consentLocked (id csrf : String) (a : RemoteAuth) : Option Consent :=
  ((a.pruneConsentsLocked now).consents.lookup id).filter (·.csrf = csrf)

/-- What `serveAuthorize` checks before it shows a page. -/
def checkAuthorize (r : AuthorizeRequest) (client : OAuthClient) (a : RemoteAuth) :
    Except Outcome Unit :=
  let redirect := r.redirect client
  let resource := remoteResource lib r.host
  if ! validRedirectURI lib redirect || ! remoteRedirectRegistered lib client.redirects redirect then
    .error (.page 400 "The redirect URL is not one Konnekt sends sign-ins to.")
  else if r.responseType ≠ "code" then
    .error (redirectError lib r.host redirect r.state "unsupported_response_type"
      "response_type must be code")
  else if r.challengeMethod ≠ "S256" ∨ ! validPKCEChallenge r.challenge then
    .error (redirectError lib r.host redirect r.state "invalid_request"
      "PKCE with S256 is required")
  else if r.resource ≠ "" ∧ ! lib.equalFold r.resource resource then
    .error (redirectError lib r.host redirect r.state "invalid_target"
      ("the resource is " ++ resource))
  else if r.scopes = [] then
    .error (redirectError lib r.host redirect r.state "invalid_scope"
      "scopes are konnekt:read and konnekt:operate")
  else if a.state.password = "" then
    .error (.page 403 "Remote sign-in has not been set up on the desktop.")
  else .ok ()

/-- The consent an authorize request starts. -/
def newConsent (r : AuthorizeRequest) (client : OAuthClient) (id csrf : String) : Consent :=
  { id, csrf, client, redirectURI := r.redirect client, state := r.state,
    challenge := r.challenge, scopes := r.scopes,
    resource := remoteResource lib r.host, created := now }

/-- `serveAuthorize`. -/
def serveAuthorize (draws : Draws) (r : AuthorizeRequest) (a : RemoteAuth) :
    Outcome × RemoteAuth :=
  if r.clientID = "" then (.page 400 "The sign-in request names no client.", a)
  else match r.resolved lib now with
    | .error err => (.page 400 ("Konnekt could not verify the client: " ++ err ++ "."), a)
    | .ok client =>
      match checkAuthorize lib r client a, draws.id, draws.token with
      | .error outcome, _, _ => (outcome, a)
      | .ok _, .ok id, .ok csrf =>
        let a := a.pruneConsentsLocked now
        if remoteMaxConsents ≤ a.consents.values.length then
          (.page 503 "Too many sign-ins are waiting. Try again in a few minutes.", a)
        else
          (.consentPage id,
            { a with consents := a.consents.insert id (newConsent lib now r client id csrf) })
      | .ok _, _, _ => (.page 500 "Konnekt could not start the sign-in.", a)

/-- The scopes a consent page grants: those ticked of the ones asked for. -/
def tickedScopes (c : Consent) (ticked : List String) : List String :=
  let granted := ticked.filter (· ∈ c.scopes)
  normalizeRemoteScopes
    (if remoteScopeOperate ∈ granted ∧ remoteScopeRead ∉ granted then granted ++ [remoteScopeRead]
    else granted)

/-- `remoteWaitURL`, its query not escaped. -/
def remoteWaitURL (c : Consent) : String :=
  remoteAuthorizeWaitPath ++ "?csrf=" ++ c.csrf ++ "&request=" ++ c.id

/-- `serveConsent` up to the check of the password. -/
def serveConsent (r : ConsentForm) (a : RemoteAuth) :
    Except Outcome ConsentSubmit × RemoteAuth :=
  if ¬ "application/x-www-form-urlencoded".toList <+: r.contentType.toList then
    (.error (.page 415 "The form was not sent as a form."), a)
  else if ! r.parsed then (.error (.page 400 "The form could not be read."), a)
  else
    let found := a.consentLocked now r.request r.csrf
    let a := a.pruneConsentsLocked now
    match found with
    | none => (.error (.page 400 remoteConsentExpired), a)
    | some c =>
      if c.waiting then (.error (.redirected (remoteWaitURL c) []), a)
      else if r.deny then
        (.error (redirectError lib r.host c.redirectURI c.state "access_denied"
          "the user cancelled"), { a with consents := a.consents.erase r.request })
      else
        let granted := tickedScopes c r.scopes
        if r.password = "" then (.error (.page 400 "Type the Remote Access password."), a)
        else if granted = [] then (.error (.page 400 "Tick at least one permission."), a)
        else
          match a.beginLoginLocked now remoteConsentKey with
          | (some wait, a) =>
            let message := if a.loginBusyLocked remoteConsentKey
              then "Already checking the password. Try again in a moment."
              else "Too many wrong passwords. Try again in " ++ durationText wait ++ "."
            (.error (.page 429 message), a)
          | (none, a) => (.ok ⟨r.request, r.csrf, a.state.password, r.password, granted⟩, a)

/-- `serveConsent` from the check of the password on: it may ask the desktop. -/
def serveConsentChecked (f : ConsentSubmit) (a : RemoteAuth) : Outcome × RemoteAuth :=
  let ok := f.encoded ≠ "" && passwordRight lib f.password f.encoded
  let a := a.endLoginLocked now remoteConsentKey ok
  let found := a.consentLocked now f.request f.csrf
  let a := a.pruneConsentsLocked now
  match found with
  | none => (.page 400 remoteConsentExpired, a)
  | some c =>
    if ! ok then (.page 401 "Wrong password.", a)
    else
      (.asked f.request, { a with
        consents := a.consents.insert f.request { c with waiting := true, granted := f.granted } })

/-- `decideConsent`, with the error of the desktop's answer if it was no. -/
def decideConsent (draws : Draws) (id : String) (err : Option String) (a : RemoteAuth) :
    Outcome × RemoteAuth :=
  match (a.consents.lookup id).filter (! ·.decided) with
  | none => (.done, a)
  | some c =>
    let c := { c with decided := true }
    match err, draws.token with
    | some _, _ =>
      (.done, { a with consents := a.consents.insert id { c with deny := "access_denied" } })
    | none, .error _ =>
      (.done, { a with consents := a.consents.insert id { c with deny := "server_error" } })
    | none, .ok code =>
      let a := a.pruneCodesLocked now
      let entry : AuthCode :=
        { client := c.client, redirectURI := c.redirectURI, challenge := c.challenge,
          scopes := c.granted, resource := c.resource, expires := now + remoteCodeTTL }
      (.decided id code, { a with
        codes := a.codes.insert (lib.tokenHash code) entry
        consents := a.consents.insert id { c with code } })

/-- `serveAuthorizeWait`. -/
def serveAuthorizeWait (request csrf host : String) (a : RemoteAuth) : Outcome × RemoteAuth :=
  let found := (a.consentLocked now request csrf).filter (·.waiting)
  let a := a.pruneConsentsLocked now
  match found with
  | none => (.page 400 remoteConsentExpired, a)
  | some c =>
    if ! c.decided then (.page 200 "Waiting for the desktop", a)
    else
      let a := { a with consents := a.consents.erase c.id }
      if c.code = "" then
        (redirectError lib host c.redirectURI c.state c.deny
          "the desktop did not allow the connection", a)
      else
        (.redirected c.redirectURI [("code", c.code), ("state", c.state),
          ("iss", remoteIssuer lib host)], a)

/-- The host a sign-in went back to. -/
def redirectHost (uri : String) : String :=
  match lib.parseURL uri with
  | some u => if u.hostname = "" then uri else u.hostname
  | none => uri

/-- What `exchangeCode` checks of the code it has spent. -/
def checkExchange (r : CodeExchange) (entry : AuthCode) : Except String Unit :=
  if entry.client.id ≠ r.clientID ∨ (r.redirect ≠ "" ∧ r.redirect ≠ entry.redirectURI) ∨
      ! pkceMatches lib r.verifier entry.challenge then .error errRemoteCode
  else if r.resource ≠ "" ∧ ! lib.equalFold r.resource entry.resource then .error errRemoteTarget
  else .ok ()

/-- `exchangeCode`. -/
def exchangeCode (draws : Draws) (save : Option String) (r : CodeExchange) (a : RemoteAuth) :
    Outcome × RemoteAuth :=
  if r.code = "" then (.failed errRemoteCode, a)
  else
    let a := a.pruneCodesLocked now
    let hash := lib.tokenHash r.code
    let found := a.codes.lookup hash
    let a := { a with codes := a.codes.erase hash }
    match found with
    | none => (.failed errRemoteCode, a)
    | some entry =>
      match checkExchange lib r entry with
      | .error err => (.failed err, a)
      | .ok _ =>
        match issueGrantLocked lib now draws save entry.client.name entry.client.id
            (redirectHost lib entry.redirectURI) entry.scopes entry.resource true a with
        | (.error err, a) => (.failed err, a)
        | (.ok (id, tokens), a) => (.issued id tokens, a)

end RemoteAuth

end Konnekt.Remote
