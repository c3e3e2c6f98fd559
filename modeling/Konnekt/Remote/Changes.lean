import Konnekt.Remote.Calls

/-!
# What a call changes

A call keeps or drops what is there, and adds at most one thing: a session, a request,
a page, an answer, a code, a grant. Every invariant of the service is proved from this
account of its calls.
-/

namespace Konnekt.Remote

open Go

/-! ## What is kept -/

/-- A device but for its last use. -/
def DeviceRecord.core (d : DeviceRecord) : DeviceRecord := { d with lastSeen := 0 }

/-- A grant but for its last use. -/
def GrantRecord.core (g : GrantRecord) : GrantRecord := { g with lastUsed := 0 }

theorem DeviceRecord.of_core {d d' : DeviceRecord} (h : d'.core = d.core) :
    ∃ lastSeen, d' = { d with lastSeen } := by
  refine ⟨d'.lastSeen, ?_⟩
  have hback := congrArg (fun r : DeviceRecord => { r with lastSeen := d'.lastSeen }) h
  exact hback

theorem GrantRecord.of_core {g g' : GrantRecord} (h : g'.core = g.core) :
    ∃ lastUsed, g' = { g with lastUsed } := by
  refine ⟨g'.lastUsed, ?_⟩
  have hback := congrArg (fun r : GrantRecord => { r with lastUsed := g'.lastUsed }) h
  exact hback

/-- A session is the same but for its last use. -/
def SessionEntry.Kept (s s' : SessionEntry) : Prop := ∃ lastSeen, s' = { s with lastSeen }

/-- A consent is the same but for a refusal. -/
structure Consent.Kept (c c' : Consent) : Prop where
  rest : ∃ decided deny, c' = { c with decided, deny }
  decided : c.decided = true → c'.decided = true

theorem SessionEntry.Kept.refl (s : SessionEntry) : s.Kept s := ⟨s.lastSeen, rfl⟩

theorem SessionEntry.Kept.trans (s s' s'' : SessionEntry) (h : s.Kept s') (h' : s'.Kept s'') :
    s.Kept s'' := by
  obtain ⟨_, rfl⟩ := h
  obtain ⟨t, rfl⟩ := h'
  exact ⟨t, rfl⟩

theorem Consent.Kept.refl (c : Consent) : c.Kept c := ⟨⟨c.decided, c.deny, rfl⟩, fun h => h⟩

theorem Consent.Kept.trans (c c' c'' : Consent) (h : c.Kept c') (h' : c'.Kept c'') :
    c.Kept c'' := by
  refine ⟨?_, fun hc => h'.decided (h.decided hc)⟩
  obtain ⟨_, _, rfl⟩ := h.rest
  exact h'.rest

/-- Every grant and device is still the same but for its last use, and everything else comes
from what was there. -/
structure Keeps (a a' : RemoteAuth) : Prop where
  password : a'.state.password = a.state.password
  devices : (a'.state.devices.map DeviceRecord.core).Sublist (a.state.devices.map DeviceRecord.core)
  grants : (a'.state.grants.map GrantRecord.core).Sublist (a.state.grants.map GrantRecord.core)
  saved : ∀ g' ∈ a'.saved.grants, ∃ g ∈ a.state.grants ++ a.saved.grants, g'.core = g.core
  sessions : a.sessions.Within SessionEntry.Kept a'.sessions
  pending : a.pending.Within Eq a'.pending
  consents : a.consents.Within Consent.Kept a'.consents
  codes : a.codes.Within Eq a'.codes

namespace Keeps

variable {a a' : RemoteAuth}

theorem refl (a : RemoteAuth) : Keeps a a where
  password := rfl
  devices := List.Sublist.refl _
  grants := List.Sublist.refl _
  saved g hg := ⟨g, List.mem_append_right _ hg, rfl⟩
  sessions := .refl SessionEntry.Kept.refl _
  pending := .refl (fun _ => rfl) _
  consents := .refl Consent.Kept.refl _
  codes := .refl (fun _ => rfl) _

theorem mem_grants (h : Keeps a a') {g' : GrantRecord} (hg : g' ∈ a'.state.grants) :
    ∃ g ∈ a.state.grants, g'.core = g.core := by
  obtain ⟨g, hmem, hcore⟩ := List.mem_map.1 (h.grants.subset (List.mem_map_of_mem hg))
  exact ⟨g, hmem, hcore.symm⟩

theorem mem_devices (h : Keeps a a') {d' : DeviceRecord} (hd : d' ∈ a'.state.devices) :
    ∃ d ∈ a.state.devices, d'.core = d.core := by
  obtain ⟨d, hmem, hcore⟩ := List.mem_map.1 (h.devices.subset (List.mem_map_of_mem hd))
  exact ⟨d, hmem, hcore.symm⟩

theorem trans {a'' : RemoteAuth} (h : Keeps a a') (h' : Keeps a' a'') : Keeps a a'' where
  password := h'.password.trans h.password
  devices := h'.devices.trans h.devices
  grants := h'.grants.trans h.grants
  saved g'' hg := by
    obtain ⟨g', hg', hcore⟩ := h'.saved g'' hg
    obtain hmem | hmem := List.mem_append.1 hg'
    · obtain ⟨g, hg, hcore'⟩ := h.mem_grants hmem
      exact ⟨g, List.mem_append_left _ hg, hcore.trans hcore'⟩
    · obtain ⟨g, hg, hcore'⟩ := h.saved g' hmem
      exact ⟨g, hg, hcore.trans hcore'⟩
  sessions := h.sessions.trans SessionEntry.Kept.trans h'.sessions
  pending := h.pending.trans (fun _ _ _ => Eq.trans) h'.pending
  consents := h.consents.trans Consent.Kept.trans h'.consents
  codes := h.codes.trans (fun _ _ _ => Eq.trans) h'.codes

theorem of_buckets {m : GoMap LoginBucket} : Keeps a { a with buckets := m } :=
  { refl a with }

theorem of_sessions {m : GoMap SessionEntry} (h : a.sessions.Within SessionEntry.Kept m) :
    Keeps a { a with sessions := m } :=
  { refl a with sessions := h }

theorem of_pending {m : GoMap PendingEntry} (h : a.pending.Within Eq m) :
    Keeps a { a with pending := m } :=
  { refl a with pending := h }

theorem of_consents {m : GoMap Consent} (h : a.consents.Within Consent.Kept m) :
    Keeps a { a with consents := m } :=
  { refl a with consents := h }

theorem of_codes {m : GoMap AuthCode} (h : a.codes.Within Eq m) : Keeps a { a with codes := m } :=
  { refl a with codes := h }

theorem of_devices {ds : List DeviceRecord}
    (h : (ds.map DeviceRecord.core).Sublist (a.state.devices.map DeviceRecord.core)) :
    Keeps a { a with state.devices := ds } :=
  { refl a with devices := h }

theorem of_grants {gs : List GrantRecord}
    (h : (gs.map GrantRecord.core).Sublist (a.state.grants.map GrantRecord.core)) :
    Keeps a { a with state.grants := gs } :=
  { refl a with grants := h }

end Keeps

namespace RemoteAuth

variable {a a' : RemoteAuth} {lib : Platform} {now : Nat}

/-- What a save that succeeds does. -/
theorem saveLocked_eq_ok {fault : Option String} :
    a.saveLocked fault = .ok a' ↔ fault = none ∧ a' = { a with saved := a.state } := by
  cases fault with
  | none => simp only [saveLocked, Except.ok.injEq, true_and, eq_comm]
  | some err => simp only [saveLocked, reduceCtorEq, false_and]

theorem keeps_save : Keeps a { a with saved := a.state } :=
  { Keeps.refl a with saved := fun g hg => ⟨g, List.mem_append_left _ hg, rfl⟩ }

theorem keeps_trySave (fault : Option String) : Keeps a (a.trySave fault) := by
  cases fault with
  | none => exact keeps_save
  | some err => exact Keeps.refl a

theorem keeps_prunePending : Keeps a (a.prunePendingLocked now) :=
  .of_pending (GoMap.within_deleteIf (fun _ => rfl) _)

theorem keeps_pruneConsents : Keeps a (a.pruneConsentsLocked now) :=
  .of_consents (GoMap.within_deleteIf Consent.Kept.refl _)

theorem keeps_pruneCodes : Keeps a (a.pruneCodesLocked now) :=
  .of_codes (GoMap.within_deleteIf (fun _ => rfl) _)

theorem keeps_pruneGrants : Keeps a (a.pruneGrantsLocked now) :=
  .of_grants (List.filter_sublist.map _)

theorem keeps_beginLogin (key : String) : Keeps a (a.beginLoginLocked now key).2 := by
  unfold beginLoginLocked
  dsimp only
  split_ifs <;> exact .of_buckets

theorem keeps_endLogin (key : String) (ok : Bool) : Keeps a (a.endLoginLocked now key ok) := by
  unfold endLoginLocked
  split
  · exact Keeps.refl a
  · exact .of_buckets

theorem keeps_dropSessions (p : SessionEntry → Bool) : Keeps a (a.dropSessionsLocked p).2 :=
  .of_sessions (GoMap.within_deleteIf SessionEntry.Kept.refl p)

theorem keeps_dropDevices (gone : List String) : Keeps a (a.dropDevices gone).2 :=
  (Keeps.of_buckets (a := a)).trans (keeps_dropSessions _)

theorem keeps_seen (id : String) : Keeps a (a.seen now id) := by
  apply Keeps.of_devices
  rw [List.map_map, List.map_congr_left (g := DeviceRecord.core)]
  intro d _
  dsimp only [Function.comp]
  split <;> rfl

theorem keeps_eraseSession (key : String) : Keeps a { a with sessions := a.sessions.erase key } :=
  .of_sessions (GoMap.within_erase SessionEntry.Kept.refl key)

theorem keeps_erasePending (key : String) : Keeps a { a with pending := a.pending.erase key } :=
  .of_pending (GoMap.within_erase (fun _ => rfl) key)

theorem keeps_eraseConsent (key : String) : Keeps a { a with consents := a.consents.erase key } :=
  .of_consents (GoMap.within_erase Consent.Kept.refl key)

theorem keeps_eraseGrant (i : Nat) :
    Keeps a { a with state.grants := a.state.grants.eraseIdx i } :=
  .of_grants ((List.eraseIdx_sublist _ i).map _)

/-- One record in place of another that is the same but for its last use. -/
theorem keeps_set {i : Nat} {g g' : GrantRecord} (hcore : g'.core = g.core) :
    Keeps (a.setGrant i g) (a.setGrant i g') := by
  apply Keeps.of_grants (a := a.setGrant i g)
  rw [setGrant, List.map_set, List.map_set, hcore]

/-- A record replaced by itself, but for its last use. -/
theorem keeps_setGrant {i : Nat} {g g' : GrantRecord} (hi : a.state.grants[i]? = some g)
    (hcore : g'.core = g.core) : Keeps a (a.setGrant i g') := by
  obtain ⟨hlt, rfl⟩ := List.getElem?_eq_some_iff.1 hi
  have hself : a.setGrant i a.state.grants[i] = a := by rw [setGrant, List.set_getElem_self]
  have hset := keeps_set (a := a) (i := i) hcore
  rw [hself] at hset
  exact hset

end RemoteAuth

/-! ## What is added -/

/-- The password replaced, with everything that was earned with the one before dropped; the
grants may be left in `remote.json` when that cannot be written again. -/
structure PasswordSet (hash : String) (again : Option String) (a a' : RemoteAuth) : Prop where
  password : a'.state.password = hash
  devices : a'.state.devices = a.state.devices
  grants : a'.state.grants = []
  saved : a'.saved.grants = [] ∨ again ≠ none ∧ a'.saved.grants = a.state.grants
  sessions : a'.sessions = ∅
  pending : a'.pending = ∅
  consents : a'.consents = ∅
  codes : a'.codes = ∅

/-- A session added for a device. -/
def RemoteAuth.addSession (lib : Platform) (now : Nat) (token id device : String)
    (a : RemoteAuth) : RemoteAuth :=
  { a with sessions := a.sessions.insert (lib.tokenHash token) ⟨id, device, now, now⟩ }

/-- A grant with another access token. -/
def GrantRecord.renewed (lib : Platform) (now : Nat) (access : String) (g : GrantRecord) :
    GrantRecord :=
  { g with accessHash := lib.tokenHash access, accessExpires := unix (now + remoteAccessTokenTTL) }

/-- A grant with other tokens. -/
def GrantRecord.rotated (lib : Platform) (now : Nat) (tokens : RemoteTokens) (g : GrantRecord) :
    GrantRecord :=
  { g.renewed lib now tokens.access with
    prevRefreshHash := g.refreshHash, refreshHash := lib.tokenHash tokens.refresh }

/-- The grant a code is exchanged for, before it has tokens. -/
def AuthCode.grant (lib : Platform) (now : Nat) (id : String) (entry : AuthCode) : GrantRecord :=
  { id, client := cleanRemoteClient lib entry.client.name, clientID := entry.client.id,
    redirect := RemoteAuth.redirectHost lib entry.redirectURI,
    scopes := normalizeRemoteScopes entry.scopes, resource := lib.toLower entry.resource,
    created := unix now }

/-- The code a consent is approved with. -/
def Consent.authCode (now : Nat) (c : Consent) : AuthCode :=
  { client := c.client, redirectURI := c.redirectURI, challenge := c.challenge,
    scopes := c.granted, resource := c.resource, expires := now + remoteCodeTTL }

/-- A pair of tokens that was drawn. -/
structure RemoteTokens.From (draws : Draws) (tokens : RemoteTokens) : Prop where
  access : draws.token = .ok tokens.access
  refresh : draws.refresh = .ok tokens.refresh

/-- The one thing a call adds. -/
inductive Adds (lib : Platform) (now : Nat) :
    Action → Outcome → RemoteAuth → RemoteAuth → Prop
  | passwordSet {hash : String} {again : Option String} {password : String} {ids : List String}
      {a a' : RemoteAuth} (hset : PasswordSet hash again a a') :
      Adds lib now (.setPassword (.ok hash) none again password) (.revoked ids) a a'
  | signedIn {draws : Draws} {save : Option String} {f : SignIn} {a : RemoteAuth}
      {d : DeviceRecord} {token id : String}
      (hright : RemoteAuth.passwordRight lib f.password f.encoded = true)
      (hd : d ∈ a.state.devices) (htoken : draws.token = .ok token) (hid : draws.id = .ok id) :
      Adds lib now (.loginChecked draws save f) (.signedIn token id d.id) a
        (a.addSession lib now token id d.id)
  | requested {draws : Draws} {save : Option String} {f : SignIn} {a : RemoteAuth}
      {p : PendingEntry} {token id code : String}
      (hright : RemoteAuth.passwordRight lib f.password f.encoded = true)
      (hid : draws.id = .ok id) (htoken : draws.token = .ok token) (hp : p.id = id)
      (hhash : p.tokenHash = lib.tokenHash token) (hopen : p.granted = false) :
      Adds lib now (.loginChecked draws save f) (.requested id token code) a
        { a with pending := a.pending.insert id p }
  | collected {draws : Draws} {save : Option String} {deviceToken key : String} {a : RemoteAuth}
      {p : PendingEntry} {d : DeviceRecord} {token id : String}
      (hp : a.pending.lookup key = some p) (hgranted : p.granted = true)
      (hd : d ∈ a.state.devices) (hdevice : d.id = p.deviceID)
      (htoken : draws.token = .ok token) (hid : draws.id = .ok id) :
      Adds lib now (.loginWait draws save deviceToken) (.collected p.id token id d.id) a
        ({ a with pending := a.pending.erase p.id }.addSession lib now token id d.id)
  | approved {draws : Draws} {save : Option String} {request name : String} {a : RemoteAuth}
      {p : PendingEntry} {d : DeviceRecord} {id : String} {expires : Nat}
      (hp : a.pending.lookup request = some p) (hopen : p.granted = false)
      (hid : draws.id = .ok id) (hd : d.id = id) :
      Adds lib now (.approveDevice draws save request name) (.approved request id) a
        { a with
          state.devices := a.state.devices ++ [d]
          pending := a.pending.insert request { p with granted := true, deviceID := id, expires } }
  | consentPage {draws : Draws} {r : AuthorizeRequest} {a : RemoteAuth} {client : OAuthClient}
      {id csrf : String} (hclient : r.resolved lib now = .ok client)
      (hcheck : RemoteAuth.checkAuthorize lib r client a = .ok ())
      (hid : draws.id = .ok id) :
      Adds lib now (.authorizeClient draws r) (.consentPage id) a
        { a with consents :=
            a.consents.insert id (RemoteAuth.newConsent lib now r client id csrf) }
  | asked {f : ConsentSubmit} {a : RemoteAuth} {c : Consent}
      (hc : a.consents.lookup f.request = some c) (hnew : c.created + remoteConsentTTL ≥ now)
      (hright : (Check.consent f).right lib = true) :
      Adds lib now (.consentChecked f) (.asked f.request) a
        { a with consents :=
            a.consents.insert f.request { c with waiting := true, granted := f.granted } }
  | decided {draws : Draws} {id code : String} {a : RemoteAuth} {c : Consent}
      (hc : a.consents.lookup id = some c) (hopen : c.decided = false)
      (hcode : draws.token = .ok code) :
      Adds lib now (.decide draws id none) (.decided id code) a
        { a with
          codes := a.codes.insert (lib.tokenHash code) (c.authCode now)
          consents := a.consents.insert id { c with decided := true, code } }
  | issued {draws : Draws} {save : Option String} {r : CodeExchange} {a : RemoteAuth}
      {entry : AuthCode} {id : String} {tokens : RemoteTokens}
      (hcode : a.codes.lookup (lib.tokenHash r.code) = some entry) (hnew : now < entry.expires)
      (hcheck : RemoteAuth.checkExchange lib r entry = .ok ()) (hid : draws.id = .ok id)
      (htokens : tokens.From draws) :
      Adds lib now (.exchange draws save r) (.issued id tokens) a
        { a with
          codes := a.codes.erase (lib.tokenHash r.code)
          state.grants := a.state.grants ++ [(entry.grant lib now id).rotated lib now tokens] }
  | renewed {draws : Draws} {save : Option String} {token clientID err access : String} {i : Nat}
      {a : RemoteAuth} {g : GrantRecord} (hg : a.state.grants[i]? = some g)
      (haccess : draws.token = .ok access) :
      Adds lib now (.refresh draws save token clientID) (.failed err) a
        (a.setGrant i (g.renewed lib now access))
  | rotated {draws : Draws} {save : Option String} {token clientID : String} {o : Outcome}
      {i : Nat} {a : RemoteAuth} {g : GrantRecord} {tokens : RemoteTokens}
      (hg : a.state.grants[i]? = some g) (htoken : g.refreshHash = lib.tokenHash token)
      (hclient : g.clientID = clientID) (htokens : tokens.From draws)
      (ho : o = .issued g.id tokens ∨ ∃ err, o = .failed err) :
      Adds lib now (.refresh draws save token clientID) o a
        (a.setGrant i (g.rotated lib now tokens))

/-- An answer that tells of nothing added. -/
def Outcome.plain : Outcome → Bool
  | .signedIn .. | .requested .. | .collected .. | .approved .. | .consentPage _ | .asked _
  | .decided .. | .issued .. => false
  | _ => true

/-- What a call answers and what becomes of the service. -/
inductive Change (lib : Platform) (now : Nat) (x : Action) (a : RemoteAuth) (o : Outcome)
    (a' : RemoteAuth) : Prop
  | kept (hplain : o.plain = true) (h : Keeps a a')
  | added {mid mid' : RemoteAuth} (hbefore : Keeps a mid) (hadds : Adds lib now x o mid mid')
      (hafter : Keeps mid' a')

namespace RemoteAuth

variable {a a' : RemoteAuth} {lib : Platform} {now : Nat} {draws : Draws} {save : Option String}

/-! ## Each call -/

theorem GoMap.deleteIf_all {α : Type} (m : GoMap α) : m.deleteIf (fun _ => true) = ∅ := by
  apply AList.ext
  exact List.filter_eq_nil_iff.2 fun _ _ => by simp

theorem change_setPassword (hash : Except String String) (again : Option String)
    (password : String) :
    Change lib now (.setPassword hash save again password) a
      (a.setPassword hash save again password).1 (a.setPassword hash save again password).2 := by
  unfold setPassword
  split_ifs with hlength
  · exact .kept rfl (Keeps.refl a)
  cases hash with
  | error err => exact .kept rfl (Keeps.refl a)
  | ok hash =>
    cases save with
    | some err => exact .kept rfl (Keeps.refl a)
    | none =>
      refine .added (Keeps.refl a) (.passwordSet ?_) (Keeps.refl _)
      dsimp only [saveLocked, dropSessionsLocked]
      cases hgrants : a.state.grants with
      | nil =>
        exact ⟨rfl, rfl, rfl, .inl rfl, GoMap.deleteIf_all _, rfl, rfl, rfl⟩
      | cons g gs =>
        cases again with
        | none => exact ⟨rfl, rfl, rfl, .inl rfl, GoMap.deleteIf_all _, rfl, rfl, rfl⟩
        | some err =>
          exact ⟨rfl, rfl, rfl, .inr ⟨Option.some_ne_none _, hgrants.symm⟩,
            GoMap.deleteIf_all _, rfl, rfl, rfl⟩

/-- The sessions that have not expired. -/
def sweep (now : Nat) (a : RemoteAuth) : RemoteAuth :=
  { a with sessions := a.sessions.deleteIf (remoteSessionExpired · now) }

theorem keeps_sweep : Keeps a (a.sweep now) :=
  .of_sessions (GoMap.within_deleteIf SessionEntry.Kept.refl _)

/-- Issuing a session fails, or adds it. -/
theorem issueSession_cases (device : DeviceRecord) :
    (∃ err, a.issueSessionLocked lib now draws save device = (.error err, a)) ∨
    ∃ token id a', a.issueSessionLocked lib now draws save device = (.ok (token, id), a') ∧
      draws.token = .ok token ∧ draws.id = .ok id ∧
      Keeps ((a.sweep now).addSession lib now token id device.id) a' := by
  unfold issueSessionLocked
  cases draws.token with
  | error err => exact .inl ⟨err, rfl⟩
  | ok token =>
    cases draws.id with
    | error err => exact .inl ⟨err, rfl⟩
    | ok id =>
      exact .inr ⟨token, id, _, rfl, rfl, rfl, (keeps_seen device.id).trans (keeps_trySave save)⟩

theorem mem_of_deviceByToken {token : String} {d : DeviceRecord}
    (h : a.deviceByTokenLocked lib token = some d) : d ∈ a.state.devices := by
  unfold deviceByTokenLocked at h
  split_ifs at h
  exact List.mem_of_find?_eq_some h

theorem mem_of_device {id : String} {d : DeviceRecord} (h : a.deviceLocked id = some d) :
    d ∈ a.state.devices ∧ d.id = id := by
  have hid := List.find?_some h
  exact ⟨List.mem_of_find?_eq_some h, of_decide_eq_true hid⟩

theorem change_pending {b : RemoteAuth} {f : SignIn}
    (hright : passwordRight lib f.password f.encoded = true) (hbefore : Keeps a b) :
    Change lib now (.loginChecked draws save f) a (b.servePendingLocked lib now draws f).1
      (b.servePendingLocked lib now draws f).2 := by
  unfold servePendingLocked
  dsimp only
  have hpruned : Keeps a (b.prunePendingLocked now) := hbefore.trans keeps_prunePending
  generalize b.prunePendingLocked now = b' at hpruned ⊢
  generalize (if f.deviceToken = "" then none else _ : Option PendingEntry) = own
  cases own with
  | some p => exact .kept rfl hpruned
  | none =>
    dsimp only
    split_ifs with hfull
    · exact .kept rfl hpruned
    unfold newPendingLocked
    dsimp only
    split
    · next token id code htoken hid hcode =>
      dsimp only
      exact .added hpruned (.requested hright hid htoken rfl rfl rfl) (Keeps.refl _)
    · exact .kept rfl hpruned

theorem change_loginChecked (f : SignIn) :
    Change lib now (.loginChecked draws save f) a (a.serveLoginChecked lib now draws save f).1
      (a.serveLoginChecked lib now draws save f).2 := by
  unfold serveLoginChecked
  dsimp only
  have hended : Keeps a (a.endLoginLocked now f.key (passwordRight lib f.password f.encoded)) :=
    keeps_endLogin _ _
  generalize a.endLoginLocked now f.key (passwordRight lib f.password f.encoded) = b at hended ⊢
  split_ifs with hwrong
  · exact .kept rfl hended
  have hright : passwordRight lib f.password f.encoded = true := by simpa using hwrong
  cases hdevice : b.deviceByTokenLocked lib f.deviceToken with
  | none => exact change_pending hright hended
  | some d =>
    have hd : d ∈ { b with pending := b.pending.deleteIf (·.deviceID = d.id) }.state.devices :=
      mem_of_deviceByToken hdevice
    dsimp only
    have hdropped : Keeps a { b with pending := b.pending.deleteIf (·.deviceID = d.id) } :=
      hended.trans (.of_pending (GoMap.within_deleteIf (fun _ => rfl) _))
    generalize { b with pending := b.pending.deleteIf (·.deviceID = d.id) } = b' at hd hdropped ⊢
    obtain ⟨err, hissue⟩ | ⟨token, id, a', hissue, htoken, hid, hafter⟩ :=
      @issueSession_cases b' lib now draws save d
    · rw [hissue]
      exact .kept rfl hdropped
    · rw [hissue]
      exact .added (hdropped.trans keeps_sweep) (.signedIn hright hd htoken hid) hafter

theorem change_loginWait (deviceToken : String) :
    Change lib now (.loginWait draws save deviceToken) a
      (a.serveLoginWait lib now draws save deviceToken).1
      (a.serveLoginWait lib now draws save deviceToken).2 := by
  unfold serveLoginWait
  dsimp only
  have hpruned : Keeps a (a.prunePendingLocked now) := keeps_prunePending
  generalize a.prunePendingLocked now = b at hpruned ⊢
  split
  · exact .kept rfl hpruned
  · next key p hfound =>
    have hp : b.pending.lookup key = some p := by
      split_ifs at hfound
      exact AList.mem_lookup_iff.2 (List.mem_of_find?_eq_some hfound)
    split_ifs with hopen
    · exact .kept rfl hpruned
    have hgranted : p.granted = true := by simpa using hopen
    have herased : Keeps a { b with pending := b.pending.erase p.id } :=
      hpruned.trans (keeps_erasePending p.id)
    split
    · exact .kept rfl herased
    · next device hdevice =>
      obtain ⟨hd, hdevice⟩ := mem_of_device hdevice
      obtain ⟨err, hissue⟩ | ⟨token, id, a', hissue, htoken, hid, hafter⟩ :=
        @issueSession_cases { b with pending := b.pending.erase p.id } lib now draws save device
      · rw [hissue]
        exact .kept rfl herased
      · rw [hissue]
        exact .added (hpruned.trans keeps_sweep)
          (.collected (a := b.sweep now) hp hgranted hd hdevice htoken hid) hafter

theorem change_approveDevice (requestID name : String) :
    Change lib now (.approveDevice draws save requestID name) a
      (a.approveDevice lib now draws save requestID name).1
      (a.approveDevice lib now draws save requestID name).2 := by
  unfold approveDevice
  split
  · exact .kept rfl (Keeps.refl a)
  dsimp only
  have hpruned : Keeps a (a.prunePendingLocked now) := keeps_prunePending
  generalize a.prunePendingLocked now = b at hpruned ⊢
  split
  · exact .kept rfl hpruned
  · next p hfound =>
    obtain ⟨hp, hopen⟩ := Option.filter_eq_some_iff.1 hfound
    rw [Bool.not_eq_true'] at hopen
    split_ifs with hfull hname
    · exact .kept rfl hpruned
    · exact .kept rfl hpruned
    split
    · exact .kept rfl hpruned
    · next id hid =>
      cases save with
      | some err => exact .kept rfl hpruned
      | none => exact .added hpruned (.approved hp hopen hid rfl) keeps_save

theorem change_denyDevice (requestID : String) :
    Change lib now (.denyDevice requestID) a (a.denyDevice now requestID).1
      (a.denyDevice now requestID).2 := by
  unfold denyDevice
  dsimp only
  split
  · exact .kept rfl keeps_prunePending
  · exact .kept rfl (keeps_prunePending.trans (keeps_erasePending _))

/-- Some devices removed, with their sessions. -/
theorem keeps_remove {ds : List DeviceRecord} (hds : ds.Sublist a.state.devices)
    (gone : List String) :
    Keeps a ({ a with state.devices := ds, saved := { a.state with devices := ds } }.dropDevices
      gone).2 :=
  ((Keeps.of_devices (hds.map _)).trans keeps_save).trans (keeps_dropDevices gone)

theorem change_removeDevice (deviceID : String) :
    Change lib now (.removeDevice save deviceID) a (a.removeDevice save deviceID).1
      (a.removeDevice save deviceID).2 := by
  unfold removeDevice
  split_ifs
  · exact .kept rfl (Keeps.refl a)
  cases save with
  | some err => exact .kept rfl (Keeps.refl a)
  | none => exact .kept rfl (keeps_remove List.filter_sublist _)

theorem change_forgetHost (host : String) :
    Change lib now (.forgetHost save host) a (a.forgetHost lib save host).1
      (a.forgetHost lib save host).2 := by
  unfold forgetHost
  dsimp only
  split_ifs
  · exact .kept rfl (Keeps.refl a)
  · exact .kept rfl (.of_pending (GoMap.within_deleteIf (fun _ => rfl) _))
  have hforgot : Keeps a
      { a with pending := a.pending.deleteIf (·.host = lib.toLower host) } :=
    .of_pending (GoMap.within_deleteIf (fun _ => rfl) _)
  cases save with
  | some err => exact .kept rfl hforgot
  | none => exact .kept rfl (hforgot.trans (keeps_remove List.filter_sublist _))

theorem change_logout (token : String) :
    Change lib now (.logout token) a (a.serveLogout lib token).1 (a.serveLogout lib token).2 := by
  unfold serveLogout
  dsimp only
  split
  · exact .kept rfl (Keeps.refl a)
  · exact .kept rfl (keeps_eraseSession _)

theorem keeps_touchSession {key : String} {s : SessionEntry}
    (h : a.sessions.lookup key = some s) :
    Keeps a { a with sessions := a.sessions.insert key { s with lastSeen := now } } :=
  .of_sessions (GoMap.within_insert SessionEntry.Kept.refl h ⟨now, rfl⟩)

theorem change_authorize (token : String) :
    Change lib now (.authorize token) a (a.authorize lib now token).1
      (a.authorize lib now token).2 := by
  unfold authorize
  split_ifs
  · exact .kept rfl (Keeps.refl a)
  dsimp only
  split
  · exact .kept rfl (Keeps.refl a)
  · next s hs =>
    split_ifs
    · exact .kept rfl (keeps_eraseSession _)
    split
    · exact .kept rfl (keeps_eraseSession _)
    · exact .kept rfl (keeps_touchSession hs)

theorem change_sessionAlive (id : String) :
    Change lib now (.sessionAlive id) a (a.sessionAlive now id).1 (a.sessionAlive now id).2 := by
  unfold sessionAlive
  split
  · exact .kept rfl (Keeps.refl a)
  · next key s hfound =>
    split_ifs
    · exact .kept rfl (keeps_eraseSession _)
    · exact .kept rfl
        (keeps_touchSession (AList.mem_lookup_iff.2 (List.mem_of_find?_eq_some hfound)))

theorem plain_of_checkAuthorize {r : AuthorizeRequest} {client : OAuthClient} {o : Outcome}
    (h : checkAuthorize lib r client a = .error o) : o.plain = true := by
  unfold checkAuthorize at h
  dsimp only at h
  split_ifs at h <;> cases h <;> rfl

theorem checkAuthorize_congr {b : RemoteAuth} (r : AuthorizeRequest) (client : OAuthClient)
    (h : b.state.password = a.state.password) :
    checkAuthorize lib r client b = checkAuthorize lib r client a := by
  unfold checkAuthorize
  rw [h]

theorem change_authorizeClient (r : AuthorizeRequest) :
    Change lib now (.authorizeClient draws r) a (a.serveAuthorize lib now draws r).1
      (a.serveAuthorize lib now draws r).2 := by
  unfold serveAuthorize
  split_ifs
  · exact .kept rfl (Keeps.refl a)
  cases hresolved : r.resolved lib now with
  | error err => exact .kept rfl (Keeps.refl a)
  | ok client =>
    dsimp only
    split
    · next o _ _ hcheck => exact .kept (plain_of_checkAuthorize hcheck) (Keeps.refl a)
    · next id csrf hcheck hid _ =>
      split_ifs
      · exact .kept rfl keeps_pruneConsents
      · rw [← checkAuthorize_congr r client keeps_pruneConsents.password] at hcheck
        exact .added keeps_pruneConsents (.consentPage hresolved hcheck hid) (Keeps.refl _)
    · exact .kept rfl (Keeps.refl a)

/-- A consent found by its id and its token. -/
theorem consentLocked_eq_some {id csrf : String} {c : Consent}
    (h : a.consentLocked now id csrf = some c) :
    (a.pruneConsentsLocked now).consents.lookup id = some c ∧ c.csrf = csrf := by
  obtain ⟨hc, hcsrf⟩ := Option.filter_eq_some_iff.1 h
  exact ⟨hc, of_decide_eq_true hcsrf⟩

theorem change_consentChecked (f : ConsentSubmit) :
    Change lib now (.consentChecked f) a (a.serveConsentChecked lib now f).1
      (a.serveConsentChecked lib now f).2 := by
  unfold serveConsentChecked
  dsimp only
  have hended : Keeps a (a.endLoginLocked now remoteConsentKey
      (f.encoded ≠ "" && passwordRight lib f.password f.encoded)) := keeps_endLogin _ _
  generalize a.endLoginLocked now remoteConsentKey
    (f.encoded ≠ "" && passwordRight lib f.password f.encoded) = b at hended ⊢
  have hpruned : Keeps a (b.pruneConsentsLocked now) := hended.trans keeps_pruneConsents
  split
  · exact .kept rfl hpruned
  · next c hfound =>
    split_ifs with hwrong
    · exact .kept rfl hpruned
    have hright : (Check.consent f).right lib = true := by simpa [Check.right] using hwrong
    obtain ⟨hc, _⟩ := consentLocked_eq_some hfound
    have hnew : now ≤ c.created + remoteConsentTTL := by
      simpa using (GoMap.lookup_deleteIf.1 hc).2
    exact .added hpruned (.asked hc hnew hright) (Keeps.refl _)

theorem keeps_refuse {id deny : String} {c : Consent} (hc : a.consents.lookup id = some c) :
    Keeps a { a with consents := a.consents.insert id { c with decided := true, deny } } :=
  .of_consents (GoMap.within_insert Consent.Kept.refl hc ⟨⟨true, deny, rfl⟩, fun _ => rfl⟩)

theorem change_decide (id : String) (err : Option String) :
    Change lib now (.decide draws id err) a (a.decideConsent lib now draws id err).1
      (a.decideConsent lib now draws id err).2 := by
  unfold decideConsent
  split
  · exact .kept rfl (Keeps.refl a)
  · next c hfound =>
    obtain ⟨hc, hopen⟩ := Option.filter_eq_some_iff.1 hfound
    rw [Bool.not_eq_true'] at hopen
    dsimp only
    split
    · exact .kept rfl (keeps_refuse hc)
    · exact .kept rfl (keeps_refuse hc)
    · next code hcode =>
      exact .added keeps_pruneCodes (.decided hc hopen hcode) (Keeps.refl _)

theorem change_authorizeWait (request csrf host : String) :
    Change lib now (.authorizeWait request csrf host) a
      (a.serveAuthorizeWait lib now request csrf host).1
      (a.serveAuthorizeWait lib now request csrf host).2 := by
  unfold serveAuthorizeWait
  dsimp only
  split
  · exact .kept rfl keeps_pruneConsents
  · split_ifs
    · exact .kept rfl keeps_pruneConsents
    · exact .kept rfl (keeps_pruneConsents.trans (keeps_eraseConsent _))
    · exact .kept rfl (keeps_pruneConsents.trans (keeps_eraseConsent _))

/-! ### Tokens -/

/-- Fresh tokens, or what is left of the attempt. -/
theorem mintLocked_cases (g : GrantRecord) :
    (∃ err, mintLocked lib now draws true g = (.error err, g)) ∨
    (∃ err access, mintLocked lib now draws true g = (.error err, g.renewed lib now access) ∧
      draws.token = .ok access) ∨
    ∃ tokens, mintLocked lib now draws true g = (.ok tokens, g.rotated lib now tokens) ∧
      tokens.From draws ∧ tokens.scopes = g.scopes := by
  unfold mintLocked
  cases haccess : draws.token with
  | error err => exact .inl ⟨err, rfl⟩
  | ok access =>
    cases hrefresh : draws.refresh with
    | error err => exact .inr (.inl ⟨err, access, rfl, rfl⟩)
    | ok refresh =>
      exact .inr (.inr ⟨⟨access, refresh, _, g.scopes⟩, rfl, ⟨haccess, hrefresh⟩, rfl⟩)

theorem change_refresh (token clientID : String) :
    Change lib now (.refresh draws save token clientID) a
      (a.refreshGrant lib now draws save token clientID).1
      (a.refreshGrant lib now draws save token clientID).2 := by
  unfold refreshGrant
  split_ifs
  · exact .kept rfl (Keeps.refl a)
  dsimp only
  have hpruned : Keeps a (a.pruneGrantsLocked now) := keeps_pruneGrants
  generalize a.pruneGrantsLocked now = b at hpruned ⊢
  split
  · exact .kept rfl hpruned
  next i _ =>
  split
  · exact .kept rfl hpruned
  next g hg =>
  split_ifs with hcurrent hclient
  · exact .kept rfl hpruned
  · rw [not_not] at hclient
    obtain ⟨err, hmint⟩ | ⟨err, access, hmint, haccess⟩ | ⟨tokens, hmint, htokens, _⟩ :=
      @mintLocked_cases lib now draws g
    · rw [hmint]
      exact .kept rfl (hpruned.trans (keeps_setGrant hg rfl))
    · rw [hmint]
      exact .added hpruned (.renewed hg haccess) (Keeps.refl _)
    · rw [hmint]
      dsimp only
      have hused : Keeps (b.setGrant i (g.rotated lib now tokens))
          (b.setGrant i { g.rotated lib now tokens with lastUsed := unix now }) :=
        keeps_set rfl
      cases save with
      | some err =>
        exact .added hpruned (.rotated hg hcurrent hclient htokens (.inr ⟨err, rfl⟩)) hused
      | none =>
        exact .added hpruned (.rotated hg hcurrent hclient htokens (.inl rfl))
          (hused.trans keeps_save)
  · exact .kept rfl ((hpruned.trans (keeps_eraseGrant i)).trans (keeps_trySave save))

/-- Issuing a grant fails, or adds it. -/
theorem issueGrant_cases (entry : AuthCode) :
    (∃ err a', issueGrantLocked lib now draws save entry.client.name entry.client.id
        (redirectHost lib entry.redirectURI) entry.scopes entry.resource true a =
          (.error err, a') ∧ Keeps a a') ∨
    ∃ id tokens a', issueGrantLocked lib now draws save entry.client.name entry.client.id
        (redirectHost lib entry.redirectURI) entry.scopes entry.resource true a =
          (.ok (id, tokens), a') ∧
      draws.id = .ok id ∧ tokens.From draws ∧
      (entry.grant lib now id).rotated lib now tokens ∈ a'.state.grants ∧
      Keeps { a.pruneGrantsLocked now with
        state.grants := (a.pruneGrantsLocked now).state.grants ++
          [(entry.grant lib now id).rotated lib now tokens] } a' := by
  unfold issueGrantLocked
  cases hid : draws.id with
  | error err =>
    dsimp only
    split_ifs <;> exact .inl ⟨_, _, rfl, Keeps.refl a⟩
  | ok id =>
    dsimp only
    split_ifs with hscopes hresource hfull
    · exact .inl ⟨_, _, rfl, Keeps.refl a⟩
    · exact .inl ⟨_, _, rfl, Keeps.refl a⟩
    · exact .inl ⟨_, _, rfl, keeps_pruneGrants⟩
    obtain ⟨err, hmint⟩ | ⟨err, access, hmint, _⟩ | ⟨tokens, hmint, htokens, _⟩ :=
      @mintLocked_cases lib now draws (entry.grant lib now id)
    · rw [AuthCode.grant] at hmint
      rw [hmint]
      exact .inl ⟨_, _, rfl, keeps_pruneGrants⟩
    · rw [AuthCode.grant] at hmint
      rw [hmint]
      exact .inl ⟨_, _, rfl, keeps_pruneGrants⟩
    · rw [AuthCode.grant] at hmint
      rw [hmint]
      cases save with
      | some err => exact .inl ⟨_, _, rfl, keeps_pruneGrants⟩
      | none =>
        exact .inr ⟨id, tokens, _, rfl, rfl, htokens, List.mem_append_right _ (List.mem_singleton.2 rfl),
          keeps_save⟩

theorem change_exchange (r : CodeExchange) :
    Change lib now (.exchange draws save r) a (a.exchangeCode lib now draws save r).1
      (a.exchangeCode lib now draws save r).2 := by
  unfold exchangeCode
  split_ifs
  · exact .kept rfl (Keeps.refl a)
  dsimp only
  have hpruned : Keeps a (a.pruneCodesLocked now) := keeps_pruneCodes
  have hspent : Keeps a { a.pruneCodesLocked now with
      codes := (a.pruneCodesLocked now).codes.erase (lib.tokenHash r.code) } :=
    hpruned.trans (.of_codes (GoMap.within_erase (fun _ => rfl) _))
  split
  · exact .kept rfl hspent
  next entry hfound =>
  have hnew : now < entry.expires := by
    simpa using (GoMap.lookup_deleteIf.1 hfound).2
  split
  · exact .kept rfl hspent
  next hcheck =>
  obtain ⟨err, a', hissue, hkept⟩ | ⟨id, tokens, a', hissue, hid, htokens, _, hafter⟩ :=
    @issueGrant_cases { a.pruneCodesLocked now with
      codes := (a.pruneCodesLocked now).codes.erase (lib.tokenHash r.code) } lib now draws save entry
  · rw [hissue]
    exact .kept rfl (hspent.trans hkept)
  · rw [hissue]
    exact .added (hpruned.trans keeps_pruneGrants)
      (.issued (a := (a.pruneCodesLocked now).pruneGrantsLocked now) hfound hnew hcheck hid
        htokens) hafter

/-- The grant a code was exchanged for is there. -/
theorem mem_of_exchange {r : CodeExchange} {id : String} {tokens : RemoteTokens}
    (hissued : (a.exchangeCode lib now draws save r).1 = .issued id tokens) :
    ∃ g ∈ (a.exchangeCode lib now draws save r).2.state.grants, g.id = id := by
  unfold exchangeCode at hissued ⊢
  split_ifs at hissued ⊢
  dsimp only at hissued ⊢
  split at hissued
  · cases hissued
  split at hissued
  · cases hissued
  obtain ⟨err, a', hissue, _⟩ | ⟨id', tokens', a', hissue, _, _, hmem, _⟩ :=
    @issueGrant_cases { a.pruneCodesLocked now with
      codes := (a.pruneCodesLocked now).codes.erase (lib.tokenHash r.code) } lib now draws save _
  · rw [hissue] at hissued
    cases hissued
  · rw [hissue] at hissued ⊢
    cases hissued
    exact ⟨_, hmem, rfl⟩

theorem change_bearer (token resource : String) :
    Change lib now (.bearer token resource) a (a.authorizeBearer lib now token resource).1
      (a.authorizeBearer lib now token resource).2 := by
  unfold authorizeBearer
  split_ifs
  · exact .kept rfl (Keeps.refl a)
  dsimp only
  split
  · exact .kept rfl (Keeps.refl a)
  split
  · exact .kept rfl (Keeps.refl a)
  next g hg =>
  split_ifs
  · exact .kept rfl (Keeps.refl a)
  · exact .kept rfl (keeps_setGrant hg rfl)

theorem change_revokeGrant (id : String) :
    Change lib now (.revokeGrant save id) a (a.revokeGrant save id).1
      (a.revokeGrant save id).2 := by
  unfold revokeGrant
  split
  · exact .kept rfl (Keeps.refl a)
  cases save with
  | some err => exact .kept rfl (Keeps.refl a)
  | none => exact .kept rfl ((keeps_eraseGrant _).trans keeps_save)

theorem change_revokeGrants :
    Change lib now (.revokeGrants save) a (a.revokeGrants save).1 (a.revokeGrants save).2 := by
  unfold revokeGrants
  split_ifs
  · exact .kept rfl (Keeps.refl a)
  cases save with
  | some err => exact .kept rfl (Keeps.refl a)
  | none => exact .kept rfl ((@Keeps.of_grants a [] (List.nil_sublist _)).trans keeps_save)

/-! ### Calls that begin a check -/

/-- A check asked for, of what is kept: it begins, or has to wait. -/
def Begins (now : Nat) (key : String) (wait : Option Nat) (a a' : RemoteAuth) : Prop :=
  ∃ b, Keeps a b ∧ b.buckets = a.buckets ∧ b.beginLoginLocked now key = (wait, a')

theorem Begins.keeps {key : String} {wait : Option Nat} (h : Begins now key wait a a') :
    Keeps a a' := by
  obtain ⟨b, hkeeps, _, hbegin⟩ := h
  have hlogin := @keeps_beginLogin b now key
  rw [hbegin] at hlogin
  exact hkeeps.trans hlogin

/-- A sign-in is answered at once, or its password is checked. -/
theorem serveLogin_cases (r : LoginRequest) :
    (∃ o, (a.serveLogin lib now r).1 = .error o ∧ o.plain = true ∧
      ((a.serveLogin lib now r).2 = a ∨
        ∃ wait, Begins now (((a.deviceByTokenLocked lib r.deviceToken).map (·.id)).getD "")
          (some wait) a (a.serveLogin lib now r).2)) ∨
    ∃ f, (a.serveLogin lib now r).1 = .ok f ∧ f.encoded = a.state.password ∧ f.encoded ≠ "" ∧
      f.key = ((a.deviceByTokenLocked lib r.deviceToken).map (·.id)).getD "" ∧
      f.deviceToken = r.deviceToken ∧ Begins now f.key none a (a.serveLogin lib now r).2 := by
  unfold serveLogin
  by_cases hcontent : "application/json".toList <+: r.contentType.toList
  · rw [if_neg (not_not.2 hcontent)]
    split
    · exact .inl ⟨_, rfl, rfl, .inl rfl⟩
    · exact .inl ⟨_, rfl, rfl, .inl rfl⟩
    next password _ _ =>
    dsimp only
    by_cases hset : a.state.password = ""
    · rw [if_pos hset]
      exact .inl ⟨_, rfl, rfl, .inl rfl⟩
    rw [if_neg hset]
    generalize ((a.deviceByTokenLocked lib r.deviceToken).map (·.id)).getD "" = key
    rcases hbegin : a.beginLoginLocked now key with ⟨wait, a'⟩
    cases wait with
    | some wait => exact .inl ⟨_, rfl, rfl, .inr ⟨wait, a, Keeps.refl a, rfl, hbegin⟩⟩
    | none => exact .inr ⟨_, rfl, rfl, hset, rfl, rfl, a, Keeps.refl a, rfl, hbegin⟩
  · rw [if_pos hcontent]
    exact .inl ⟨_, rfl, rfl, .inl rfl⟩

/-- A consent form is answered at once, or its password is checked. -/
theorem serveConsent_cases (r : ConsentForm) :
    (∃ o, (a.serveConsent lib now r).1 = .error o ∧ o.plain = true ∧
      (Keeps a (a.serveConsent lib now r).2 ∧ (a.serveConsent lib now r).2.buckets = a.buckets ∨
        ∃ wait, Begins now remoteConsentKey (some wait) a (a.serveConsent lib now r).2)) ∨
    ∃ f c, (a.serveConsent lib now r).1 = .ok f ∧ f.encoded = a.state.password ∧
      f.request = r.request ∧ a.consents.lookup r.request = some c ∧
      f.password = r.password ∧ f.granted = tickedScopes c r.scopes ∧
      Begins now remoteConsentKey none a (a.serveConsent lib now r).2 := by
  unfold serveConsent
  by_cases hcontent : "application/x-www-form-urlencoded".toList <+: r.contentType.toList
  · rw [if_neg (not_not.2 hcontent)]
    by_cases hparsed : (! r.parsed) = true
    · rw [if_pos hparsed]
      exact .inl ⟨_, rfl, rfl, .inl ⟨Keeps.refl a, rfl⟩⟩
    rw [if_neg hparsed]
    dsimp only
    split
    · exact .inl ⟨_, rfl, rfl, .inl ⟨keeps_pruneConsents, rfl⟩⟩
    next c hfound =>
    obtain ⟨hpruned, _⟩ := consentLocked_eq_some hfound
    have hc : a.consents.lookup r.request = some c := (GoMap.lookup_deleteIf.1 hpruned).1
    split_ifs
    · exact .inl ⟨_, rfl, rfl, .inl ⟨keeps_pruneConsents, rfl⟩⟩
    · exact .inl ⟨_, rfl, rfl, .inl ⟨keeps_pruneConsents.trans (keeps_eraseConsent _), rfl⟩⟩
    · exact .inl ⟨_, rfl, rfl, .inl ⟨keeps_pruneConsents, rfl⟩⟩
    · exact .inl ⟨_, rfl, rfl, .inl ⟨keeps_pruneConsents, rfl⟩⟩
    rcases hbegin : (a.pruneConsentsLocked now).beginLoginLocked now remoteConsentKey with
      ⟨wait, a'⟩
    cases wait with
    | some wait =>
      exact .inl ⟨_, rfl, rfl, .inr ⟨wait, _, keeps_pruneConsents, rfl, hbegin⟩⟩
    | none =>
      have hbegins : Begins now remoteConsentKey none a a' :=
        ⟨_, keeps_pruneConsents, rfl, hbegin⟩
      exact .inr ⟨_, c, rfl, hbegins.keeps.password, rfl, hc, rfl, rfl, hbegins⟩
  · rw [if_pos hcontent]
    exact .inl ⟨_, rfl, rfl, .inl ⟨Keeps.refl a, rfl⟩⟩

end RemoteAuth

/-! ## Every call -/

variable {lib : Platform}

theorem change_begin {c : Config} {x : Action} {r : Except Outcome Check × RemoteAuth}
    (hkeeps : Keeps c.auth r.2) (hplain : ∀ o, r.1 = .error o → o.plain = true) :
    Change lib c.now x c.auth (c.begin r).1 (c.begin r).2.auth := by
  unfold Config.begin
  split
  · exact .kept rfl hkeeps
  · next o ho => exact .kept (hplain o ho) hkeeps

theorem map_eq_error {α β ε : Type} {f : α → β} {r : Except ε α} {e : ε}
    (h : r.map f = .error e) : r = .error e := by
  cases r with
  | error e' =>
    cases h
    rfl
  | ok v => cases h

/-- What `Authorize` lets in. -/
theorem accepted_of_authorize {a : RemoteAuth} {now : Nat} {token id name : String}
    (haccepted : (a.authorize lib now token).1 = .session id name) :
    ∃ s, a.sessions.lookup (lib.tokenHash token) = some s ∧ s.id = id ∧
      ∃ d ∈ a.state.devices, d.id = s.deviceID ∧ d.name = name := by
  unfold RemoteAuth.authorize at haccepted
  split_ifs at haccepted
  dsimp only at haccepted
  split at haccepted
  · cases haccepted
  next s hs =>
  split_ifs at haccepted
  split at haccepted
  · cases haccepted
  next d hd =>
  cases haccepted
  obtain ⟨hmem, hid⟩ := RemoteAuth.mem_of_device hd
  exact ⟨s, hs, rfl, d, hmem, hid, rfl⟩

/-- What any call does. -/
theorem change_act (x : Action) (c : Config) :
    Change lib c.now x c.auth (x.act lib c).1 (x.act lib c).2.auth := by
  cases x with
  | tick elapsed => exact .kept rfl (Keeps.refl _)
  | setPassword hash save again password => exact RemoteAuth.change_setPassword hash again password
  | login r =>
    apply change_begin
    · obtain ⟨_, _, _, hsame | ⟨_, hbegins⟩⟩ | ⟨_, _, _, _, _, _, hbegins⟩ :=
        @RemoteAuth.serveLogin_cases c.auth lib c.now r
      · rw [Prod.map_snd, hsame]
        exact Keeps.refl c.auth
      · exact hbegins.keeps
      · exact hbegins.keeps
    · intro o ho
      obtain ⟨o', ho', hplain, _⟩ | ⟨f, hf, _⟩ := @RemoteAuth.serveLogin_cases c.auth lib c.now r
      · cases ho'.symm.trans (map_eq_error ho)
        exact hplain
      · cases hf.symm.trans (map_eq_error ho)
  | loginChecked draws save f => exact RemoteAuth.change_loginChecked f
  | loginWait draws save token => exact RemoteAuth.change_loginWait token
  | approveDevice draws save id name => exact RemoteAuth.change_approveDevice id name
  | denyDevice id => exact RemoteAuth.change_denyDevice id
  | removeDevice save id => exact RemoteAuth.change_removeDevice id
  | forgetHost save host => exact RemoteAuth.change_forgetHost host
  | revokeSessions => exact .kept rfl (RemoteAuth.keeps_dropSessions _)
  | logout token => exact RemoteAuth.change_logout token
  | authorize token => exact RemoteAuth.change_authorize token
  | sessionAlive id => exact RemoteAuth.change_sessionAlive id
  | authorizeClient draws r => exact RemoteAuth.change_authorizeClient r
  | consent r =>
    apply change_begin
    · obtain ⟨_, _, _, ⟨hkeeps, _⟩ | ⟨_, hbegins⟩⟩ |
        ⟨_, _, _, _, _, _, _, _, hbegins⟩ := @RemoteAuth.serveConsent_cases c.auth lib c.now r
      · exact hkeeps
      · exact hbegins.keeps
      · exact hbegins.keeps
    · intro o ho
      obtain ⟨o', ho', hplain, _⟩ | ⟨f, _, hf, _⟩ :=
        @RemoteAuth.serveConsent_cases c.auth lib c.now r
      · cases ho'.symm.trans (map_eq_error ho)
        exact hplain
      · cases hf.symm.trans (map_eq_error ho)
  | consentChecked f => exact RemoteAuth.change_consentChecked f
  | decide draws id err => exact RemoteAuth.change_decide id err
  | authorizeWait request csrf host => exact RemoteAuth.change_authorizeWait request csrf host
  | exchange draws save r => exact RemoteAuth.change_exchange r
  | refresh draws save token clientID => exact RemoteAuth.change_refresh token clientID
  | bearer token resource => exact RemoteAuth.change_bearer token resource
  | revokeGrant save id => exact RemoteAuth.change_revokeGrant id
  | revokeGrants save => exact RemoteAuth.change_revokeGrants

end Konnekt.Remote
