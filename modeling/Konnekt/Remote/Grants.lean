import Konnekt.Remote.Auth
import Mathlib.Data.List.Sort

/-!
# Grants

What the connectors' endpoint authorizes: a grant is one client's standing
permission, with the hashes of its current tokens and of the refresh token that was
replaced last.
-/

namespace Konnekt.Remote

open Go

def remoteScopeRead : String := "konnekt:read"
def remoteScopeOperate : String := "konnekt:operate"

def remoteAccessTokenTTL : Nat := seconds 3600
/-- Unix seconds, as the two below. -/
def remoteGrantUnused : Nat := 30 * 24 * 3600
def remoteGrantLifetime : Nat := 90 * 24 * 3600
def remoteMaxGrants : Nat := 16
def remoteClientNameMax : Nat := 60

def errRemoteGrantsFull : String := "at most 16 connectors can be signed in; revoke one first"
def errRemoteGrantUnknown : String := "no such grant"
def errRemoteScope : String := "a grant carries konnekt:read, konnekt:operate or both"
def errRemoteResource : String := "a grant's resource is the connector URL, https://<host>/mcp"
def errRemoteBearer : String := "invalid token: unknown, expired or for another resource"

def remoteMCPPath : String := "/mcp"

/-- `time.Unix`. -/
def unix (now : Nat) : Nat := now / 10 ^ 9

/-- `splitHostPortLoose`, the host. -/
def splitHostPortLoose (host : String) : String :=
  let rev := host.toList.reverse
  let port := rev.takeWhile (· ≠ ':')
  if port.length < rev.length ∧ ']' ∉ port then
    let bracket := fun c : Char => c = '[' || c = ']'
    let name := (rev.drop (port.length + 1)).dropWhile bracket
    String.ofList (name.reverse.dropWhile bracket)
  else host

/-- `RemoteResource`. -/
def remoteResource (lib : Platform) (host : String) : String :=
  let host := lib.toLower host
  let scheme := if splitHostPortLoose host ∈ ["127.0.0.1", "localhost", "::1"] then "http"
    else "https"
  scheme ++ "://" ++ host ++ remoteMCPPath

/-- The scopes kept by the loop of `normalizeRemoteScopes`, unless one is unknown. -/
def knownScopes : List String → List String → Option (List String)
  | out, [] => some out
  | out, s :: scopes =>
    if s = remoteScopeRead ∨ s = remoteScopeOperate then
      knownScopes (if s ∈ out then out else out ++ [s]) scopes
    else none

/-- `normalizeRemoteScopes`. -/
def normalizeRemoteScopes (scopes : List String) : List String :=
  match knownScopes [] scopes with
  | none => []
  | some out =>
    let out := if remoteScopeOperate ∈ out ∧ remoteScopeRead ∉ out then out ++ [remoteScopeRead]
      else out
    out.insertionSort (· ≤ ·)

/-- The longest beginning of a text within a number of bytes. -/
def takeBytes : Nat → List Char → List Char
  | _, [] => []
  | n, c :: s => if c.utf8Size ≤ n then c :: takeBytes (n - c.utf8Size) s else []

/-- `cleanRemoteClient`. -/
def cleanRemoteClient (lib : Platform) (client : String) : String :=
  let client := RemoteAuth.cleanRemoteAgent lib client
  let client := if client = "" then "unnamed client" else client
  String.ofList (takeBytes remoteClientNameMax client.toList)

/-- Whether a grant has not ended. -/
def GrantRecord.alive (now : Nat) (g : GrantRecord) : Bool :=
  unix now < g.created + remoteGrantLifetime &&
    unix now < max g.lastUsed g.created + remoteGrantUnused &&
    (g.refreshHash != "" || unix now < g.accessExpires)

namespace RemoteAuth

variable (lib : Platform) (now : Nat)

/-- `pruneGrantsLocked`. -/
def pruneGrantsLocked (a : RemoteAuth) : RemoteAuth :=
  { a with state.grants := a.state.grants.filter (GrantRecord.alive now) }

/-- `mintLocked`: the tokens, and what became of the record; the new access token stands even
when there is none to refresh it with. -/
def mintLocked (draws : Draws) (refresh : Bool) (g : GrantRecord) :
    Except String RemoteTokens × GrantRecord :=
  match draws.token with
  | .error err => (.error err, g)
  | .ok access =>
    let minted := { g with
      accessHash := lib.tokenHash access, accessExpires := unix (now + remoteAccessTokenTTL) }
    let tokens : RemoteTokens :=
      { access, expiresIn := remoteAccessTokenTTL / 10 ^ 9, scopes := g.scopes }
    if ! refresh then (.ok tokens, minted)
    else match draws.refresh with
      | .error err => (.error err, minted)
      | .ok token =>
        (.ok { tokens with refresh := token },
          { minted with prevRefreshHash := g.refreshHash, refreshHash := lib.tokenHash token })

/-- `issueGrantLocked`. -/
def issueGrantLocked (draws : Draws) (save : Option String) (client clientID redirect : String)
    (scopes : List String) (resource : String) (refresh : Bool) (a : RemoteAuth) :
    Except String (String × RemoteTokens) × RemoteAuth :=
  let scopes := normalizeRemoteScopes scopes
  if scopes = [] then (.error errRemoteScope, a)
  else if ¬ ("https://".toList <+: resource.toList ∨ "http://".toList <+: resource.toList) ∨
      ¬ remoteMCPPath.toList <:+ resource.toList then (.error errRemoteResource, a)
  else match draws.id with
    | .error err => (.error err, a)
    | .ok id =>
      let a := a.pruneGrantsLocked now
      if remoteMaxGrants ≤ a.state.grants.length then (.error errRemoteGrantsFull, a)
      else
        let record : GrantRecord :=
          { id, client := cleanRemoteClient lib client, clientID, redirect, scopes,
            resource := lib.toLower resource, created := unix now }
        match mintLocked lib now draws refresh record with
        | (.error err, _) => (.error err, a)
        | (.ok tokens, record) =>
          match { a with state.grants := a.state.grants ++ [record] }.saveLocked save with
          | .error err => (.error err, a)
          | .ok a => (.ok (id, tokens), a)

/-- A record of the grants replaced, or removed. -/
def setGrant (i : Nat) (g : GrantRecord) (a : RemoteAuth) : RemoteAuth :=
  { a with state.grants := a.state.grants.set i g }

/-- `RefreshGrant`. -/
def refreshGrant (draws : Draws) (save : Option String) (refresh clientID : String)
    (a : RemoteAuth) : Outcome × RemoteAuth :=
  if refresh = "" then (.failed errRemoteBearer, a)
  else
    let hash := lib.tokenHash refresh
    let a := a.pruneGrantsLocked now
    match a.state.grants.findIdx? fun g => g.refreshHash = hash || g.prevRefreshHash = hash with
    | none => (.failed errRemoteBearer, a)
    | some i =>
      match a.state.grants[i]? with
      | none => (.failed errRemoteBearer, a)
      | some g =>
        if g.refreshHash = hash then
          if g.clientID ≠ clientID then (.failed errRemoteBearer, a)
          else match mintLocked lib now draws true g with
            | (.error err, g) => (.failed err, a.setGrant i g)
            | (.ok tokens, g) =>
              match (a.setGrant i { g with lastUsed := unix now }).saveLocked save with
              | .error err => (.failed err, a.setGrant i { g with lastUsed := unix now })
              | .ok a => (.issued g.id tokens, a)
        else
          (.replayed g.id, { a with state.grants := a.state.grants.eraseIdx i }.trySave save)

/-- `AuthorizeBearer`. -/
def authorizeBearer (token resource : String) (a : RemoteAuth) : Outcome × RemoteAuth :=
  if token = "" then (.failed errRemoteBearer, a)
  else
    let hash := lib.tokenHash token
    match a.state.grants.findIdx? (·.accessHash = hash) with
    | none => (.failed errRemoteBearer, a)
    | some i =>
      match a.state.grants[i]? with
      | none => (.failed errRemoteBearer, a)
      | some g =>
        if g.resource ≠ lib.toLower resource ∨ g.accessExpires ≤ unix now then
          (.failed errRemoteBearer, a)
        else (.bearer g.id g.scopes, a.setGrant i { g with lastUsed := unix now })

/-- `RevokeGrant`. -/
def revokeGrant (save : Option String) (id : String) (a : RemoteAuth) : Outcome × RemoteAuth :=
  match a.state.grants.findIdx? (·.id = id) with
  | none => (.failed errRemoteGrantUnknown, a)
  | some i =>
    match { a with state.grants := a.state.grants.eraseIdx i }.saveLocked save with
    | .error err => (.failed err, a)
    | .ok a => (.done, a)

/-- `RevokeGrants`. -/
def revokeGrants (save : Option String) (a : RemoteAuth) : Outcome × RemoteAuth :=
  if a.state.grants = [] then (.done, a)
  else match { a with state.grants := [] }.saveLocked save with
    | .error err => (.failed err, a)
    | .ok a => (.done, a)

end RemoteAuth

end Konnekt.Remote
