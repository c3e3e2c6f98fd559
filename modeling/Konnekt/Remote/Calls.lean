import Konnekt.Remote.OAuth
import Konnekt.Run.Labelled

/-!
# Calls on the service

Everything that may happen to the service, in any order: calls of the desktop,
requests of browsers and clients, the ends of password checks, the desktop's answers
about consents, and the clock.
-/

namespace Konnekt.Remote

open Go

/-- A password check in flight. -/
inductive Check where
  | signIn (f : SignIn)
  | consent (f : ConsentSubmit)
  deriving DecidableEq, Repr

/-- The bucket a check was admitted to. -/
def Check.key : Check → String
  | .signIn f => f.key
  | .consent _ => remoteConsentKey

/-- The hash a password is checked against. -/
def Check.encoded : Check → String
  | .signIn f => f.encoded
  | .consent f => f.encoded

/-- Whether the password is right. -/
def Check.right (lib : Platform) : Check → Bool
  | .signIn f => RemoteAuth.passwordRight lib f.password f.encoded
  | .consent f => f.encoded ≠ "" && RemoteAuth.passwordRight lib f.password f.encoded

/-- The service, the clock, the password checks in flight, and the consents the desktop has been
asked about. -/
structure Config where
  auth : RemoteAuth := {}
  now : Nat := 0
  checks : List Check := []
  asks : List String := []

/-- What may happen to the service. A call that writes `remote.json` may fail to, each time. -/
inductive Action where
  | tick (elapsed : Nat)
  | setPassword (hash : Except String String) (save again : Option String) (password : String)
  | login (r : LoginRequest)
  | loginChecked (draws : Draws) (save : Option String) (f : SignIn)
  | loginWait (draws : Draws) (save : Option String) (deviceToken : String)
  | approveDevice (draws : Draws) (save : Option String) (requestID name : String)
  | denyDevice (requestID : String)
  | removeDevice (save : Option String) (deviceID : String)
  | forgetHost (save : Option String) (host : String)
  | revokeSessions
  | logout (token : String)
  | authorize (token : String)
  | sessionAlive (id : String)
  | authorizeClient (draws : Draws) (r : AuthorizeRequest)
  | consent (r : ConsentForm)
  | consentChecked (f : ConsentSubmit)
  | decide (draws : Draws) (id : String) (err : Option String)
  | authorizeWait (request csrf host : String)
  | exchange (draws : Draws) (save : Option String) (r : CodeExchange)
  | refresh (draws : Draws) (save : Option String) (token clientID : String)
  | bearer (token resource : String)
  | revokeGrant (save : Option String) (id : String)
  | revokeGrants (save : Option String)

/-- The check an action ends. -/
def Action.ends : Action → Option Check
  | .loginChecked _ _ f => some (.signIn f)
  | .consentChecked f => some (.consent f)
  | _ => none

/-- The consent an action answers the desktop's question about. -/
def Action.answers : Action → Option String
  | .decide _ id _ => some id
  | _ => none

namespace Config

/-- The service after a call. -/
def after (c : Config) (r : Outcome × RemoteAuth) : Outcome × Config := (r.1, { c with auth := r.2 })

/-- The service after a call that may have begun a check. -/
def begin (c : Config) (r : Except Outcome Check × RemoteAuth) : Outcome × Config :=
  match r.1 with
  | .ok check => (.verifying, { c with auth := r.2, checks := check :: c.checks })
  | .error outcome => (outcome, { c with auth := r.2 })

/-- The service after the call that ends a check. -/
def finish (c : Config) (check : Check) (r : Outcome × RemoteAuth) : Outcome × Config :=
  (r.1, { c with auth := r.2, checks := c.checks.erase check, asks :=
    match r.1 with
    | .asked id => id :: c.asks
    | _ => c.asks })

end Config

variable (lib : Platform)

/-- What happens. -/
def Action.act : Action → Config → Outcome × Config
  | .tick elapsed, c => (.done, { c with now := c.now + elapsed })
  | .setPassword hash save again password, c => c.after (c.auth.setPassword hash save again password)
  | .login r, c => c.begin ((c.auth.serveLogin lib c.now r).map (·.map .signIn) id)
  | .loginChecked draws save f, c =>
    c.finish (.signIn f) (c.auth.serveLoginChecked lib c.now draws save f)
  | .loginWait draws save token, c => c.after (c.auth.serveLoginWait lib c.now draws save token)
  | .approveDevice draws save id name, c =>
    c.after (c.auth.approveDevice lib c.now draws save id name)
  | .denyDevice id, c => c.after (c.auth.denyDevice c.now id)
  | .removeDevice save id, c => c.after (c.auth.removeDevice save id)
  | .forgetHost save host, c => c.after (c.auth.forgetHost lib save host)
  | .revokeSessions, c => c.after c.auth.revokeSessions
  | .logout token, c => c.after (c.auth.serveLogout lib token)
  | .authorize token, c => c.after (c.auth.authorize lib c.now token)
  | .sessionAlive id, c => c.after (c.auth.sessionAlive c.now id)
  | .authorizeClient draws r, c => c.after (c.auth.serveAuthorize lib c.now draws r)
  | .consent r, c => c.begin ((c.auth.serveConsent lib c.now r).map (·.map .consent) id)
  | .consentChecked f, c => c.finish (.consent f) (c.auth.serveConsentChecked lib c.now f)
  | .decide draws id err, c => c.after (c.auth.decideConsent lib c.now draws id err)
  | .authorizeWait request csrf host, c =>
    c.after (c.auth.serveAuthorizeWait lib c.now request csrf host)
  | .exchange draws save r, c => c.after (c.auth.exchangeCode lib c.now draws save r)
  | .refresh draws save token clientID, c =>
    c.after (c.auth.refreshGrant lib c.now draws save token clientID)
  | .bearer token resource, c => c.after (c.auth.authorizeBearer lib c.now token resource)
  | .revokeGrant save id, c => c.after (c.auth.revokeGrant save id)
  | .revokeGrants save, c => c.after (c.auth.revokeGrants save)

/-- A check ends that is in flight, and the desktop answers what it was asked, however often. -/
def Action.Enabled (a : Action) (c : Config) : Prop :=
  (∀ check ∈ a.ends, check ∈ c.checks) ∧ ∀ id ∈ a.answers, id ∈ c.asks

instance (a : Action) (c : Config) : Decidable (a.Enabled c) :=
  inferInstanceAs (Decidable (_ ∧ _))

/-- The service and all that may happen to it. -/
def calls : Labelled.System Config Action Outcome where
  act := Action.act lib
  enabled := Action.Enabled

instance (a : Action) (c : Config) : Decidable ((calls lib).enabled a c) :=
  inferInstanceAs (Decidable (a.Enabled c))

abbrev History := Labelled.History Config Action

/-! ## Fresh ids and tokens -/

/-- What a call drew, tokens by their hashes. -/
def Draws.drawn (d : Draws) : List String :=
  d.id.toOption.toList ++ (d.token.toOption.toList ++ d.refresh.toOption.toList).map lib.tokenHash

/-- What an action drew. -/
def Action.draws : Action → Draws
  | .loginChecked d _ _ | .loginWait d _ _ | .approveDevice d _ _ _ | .authorizeClient d _
  | .decide d _ _ | .exchange d _ _ | .refresh d _ _ _ => d
  | _ => {}

/-- What an action draws differs from all that was drawn before; an id is sixteen digits, and
neither a token's hash nor a token is empty. -/
structure Fresh (h : History) (a : Action) : Prop where
  new : ∀ x ∈ a.draws.drawn lib, ∀ e ∈ h, x ∉ e.2.draws.drawn lib
  nodup : (a.draws.drawn lib).Nodup
  id : ∀ id ∈ a.draws.id.toOption, id.length = 16
  token : ∀ x ∈ a.draws.drawn lib, x ≠ ""

instance (h : History) (a : Action) : Decidable (Fresh lib h a) :=
  decidable_of_iff (_ ∧ _ ∧ _ ∧ _)
    ⟨fun ⟨new, nodup, id, token⟩ => ⟨new, nodup, id, token⟩,
      fun ⟨new, nodup, id, token⟩ => ⟨new, nodup, id, token⟩⟩

end Konnekt.Remote
