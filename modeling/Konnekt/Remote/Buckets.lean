import Konnekt.Remote.Names

/-!
# The backoff buckets

A call moves the bucket of a key and the checks in flight under that key in one of few
ways: it is refused, it begins a check, it ends one, or it drops the bucket.
-/

namespace Konnekt.Remote

open Go

variable {lib : Platform} {a : RemoteAuth} {c : Config} {now : Nat} {draws : Draws}
  {save : Option String}

/-- The bucket of a key. -/
def Config.bucket (c : Config) (k : String) : Option LoginBucket := c.auth.buckets.lookup k

/-- The checks in flight under a key. -/
def Config.inFlight (c : Config) (k : String) : List Check := c.checks.filter (·.key = k)

/-- A bucket once its failures are forgotten if they are old. -/
def LoginBucket.fresh (now : Nat) (b : LoginBucket) : LoginBucket :=
  if 0 < b.failures ∧ b.lastFailure + remoteLoginQuiet < now then { b with failures := 0 } else b

@[simp] theorem LoginBucket.fresh_lockedUntil (b : LoginBucket) :
    (b.fresh now).lockedUntil = b.lockedUntil := by
  unfold fresh
  split_ifs <;> rfl

@[simp] theorem LoginBucket.fresh_busy (b : LoginBucket) : (b.fresh now).busy = b.busy := by
  unfold fresh
  split_ifs <;> rfl

@[simp] theorem LoginBucket.fresh_lastFailure (b : LoginBucket) :
    (b.fresh now).lastFailure = b.lastFailure := by
  unfold fresh
  split_ifs <;> rfl

@[simp] theorem LoginBucket.ended_busy (ok : Bool) (b : LoginBucket) :
    (b.ended now ok).busy = false := by
  unfold ended
  dsimp only
  split_ifs <;> rfl

/-- The calls that drop the bucket of a key. -/
def Action.Drops (lib : Platform) (c : Config) (k : String) : Action → Prop
  | .setPassword hash save _ password =>
    remotePasswordMin ≤ password.length ∧ password.length ≤ remotePasswordMax ∧
      hash.isOk = true ∧ save = none
  | .removeDevice save id => id = k ∧ (c.auth.deviceLocked id).isSome = true ∧ save = none
  | .forgetHost save host =>
    lib.toLower host ≠ "" ∧ (∃ d ∈ c.auth.state.devices, d.host = lib.toLower host ∧ d.id = k) ∧
      save = none
  | _ => False

instance (k : String) (x : Action) : Decidable (x.Drops lib c k) := by
  cases x <;> unfold Action.Drops <;> infer_instance

/-- What a call does to the bucket of a key and to the checks in flight under it. -/
inductive Moves (lib : Platform) (k : String) (c : Config) (x : Action) (c' : Config) : Prop
  | idle (hbucket : c'.bucket k = c.bucket k) (hchecks : c'.inFlight k = c.inFlight k)
  | refused {b : LoginBucket} (hb : b = (c.bucket k).getD {})
      (hlocked : c.now < b.lockedUntil ∨ b.busy = true)
      (hbucket : c'.bucket k = some (b.fresh c.now)) (hchecks : c'.inFlight k = c.inFlight k)
  | begun {b : LoginBucket} {check : Check} (hb : b = (c.bucket k).getD {})
      (hfree : b.lockedUntil ≤ c.now) (hidle : b.busy = false)
      (hbucket : c'.bucket k = some { b.fresh c.now with busy := true })
      (hchecks : c'.inFlight k = check :: c.inFlight k) (hall : c'.checks = check :: c.checks)
  | ended {check : Check} (hends : x.ends = some check) (hkey : check.key = k)
      (hbucket : c'.bucket k = (c.bucket k).map (LoginBucket.ended c.now (check.right lib)))
      (hchecks : c'.inFlight k = (c.inFlight k).erase check)
  | dropped (hdrops : x.Drops lib c k) (hbucket : c'.bucket k = none)
      (hchecks : c'.inFlight k = c.inFlight k)

namespace RemoteAuth

/-! ## Calls that leave the buckets alone -/

theorem buckets_of_save {a' : RemoteAuth} (h : a.saveLocked save = .ok a') :
    a'.buckets = a.buckets := by
  obtain ⟨_, rfl⟩ := saveLocked_eq_ok.1 h
  rfl

theorem buckets_trySave : (a.trySave save).buckets = a.buckets := by
  cases save <;> rfl

theorem buckets_issueSession (device : DeviceRecord) :
    (a.issueSessionLocked lib now draws save device).2.buckets = a.buckets := by
  unfold issueSessionLocked
  split
  · rfl
  · rfl
  · exact buckets_trySave

theorem buckets_issueGrant {client clientID redirect resource : String} {scopes : List String}
    {refresh : Bool} :
    (issueGrantLocked lib now draws save client clientID redirect scopes resource refresh a).2.buckets
      = a.buckets := by
  unfold issueGrantLocked
  repeat' first | rfl | dsimp only | split
  next hsave => exact (buckets_of_save hsave).trans rfl

theorem buckets_pending (f : SignIn) :
    (a.servePendingLocked lib now draws f).2.buckets = a.buckets := by
  unfold servePendingLocked newPendingLocked
  repeat' first | rfl | dsimp only | split

theorem buckets_loginWait (token : String) :
    (a.serveLoginWait lib now draws save token).2.buckets = a.buckets := by
  unfold serveLoginWait
  repeat' first | rfl | dsimp only | split
  all_goals
    next hissue =>
      exact (congrArg (fun r => r.2.buckets) hissue).symm.trans (buckets_issueSession _)

theorem buckets_approveDevice (requestID name : String) :
    (a.approveDevice lib now draws save requestID name).2.buckets = a.buckets := by
  unfold approveDevice
  repeat' first | rfl | dsimp only | split
  next hsave => exact (buckets_of_save hsave).trans rfl

theorem buckets_denyDevice (requestID : String) :
    (a.denyDevice now requestID).2.buckets = a.buckets := by
  unfold denyDevice
  repeat' first | rfl | dsimp only | split

theorem buckets_logout (token : String) : (a.serveLogout lib token).2.buckets = a.buckets := by
  unfold serveLogout
  repeat' first | rfl | dsimp only | split

theorem buckets_authorize (token : String) :
    (a.authorize lib now token).2.buckets = a.buckets := by
  unfold authorize
  repeat' first | rfl | dsimp only | split

theorem buckets_sessionAlive (id : String) : (a.sessionAlive now id).2.buckets = a.buckets := by
  unfold sessionAlive
  repeat' first | rfl | dsimp only | split

theorem buckets_authorizeClient (r : AuthorizeRequest) :
    (a.serveAuthorize lib now draws r).2.buckets = a.buckets := by
  unfold serveAuthorize
  repeat' first | rfl | dsimp only | split

theorem buckets_decide (id : String) (err : Option String) :
    (a.decideConsent lib now draws id err).2.buckets = a.buckets := by
  unfold decideConsent
  repeat' first | rfl | dsimp only | split

theorem buckets_authorizeWait (request csrf host : String) :
    (a.serveAuthorizeWait lib now request csrf host).2.buckets = a.buckets := by
  unfold serveAuthorizeWait
  repeat' first | rfl | dsimp only | split

theorem buckets_exchange (r : CodeExchange) :
    (a.exchangeCode lib now draws save r).2.buckets = a.buckets := by
  unfold exchangeCode
  repeat' first | rfl | dsimp only | split
  all_goals
    next hissue =>
      exact (congrArg (fun r => r.2.buckets) hissue).symm.trans buckets_issueGrant

theorem buckets_refresh (token clientID : String) :
    (a.refreshGrant lib now draws save token clientID).2.buckets = a.buckets := by
  unfold refreshGrant
  repeat' first | rfl | exact buckets_trySave | dsimp only | split
  next hsave => exact (buckets_of_save hsave).trans rfl

theorem buckets_bearer (token resource : String) :
    (a.authorizeBearer lib now token resource).2.buckets = a.buckets := by
  unfold authorizeBearer
  repeat' first | rfl | dsimp only | split

theorem buckets_revokeGrant (id : String) : (a.revokeGrant save id).2.buckets = a.buckets := by
  unfold revokeGrant
  repeat' first | rfl | dsimp only | split
  next hsave => exact (buckets_of_save hsave).trans rfl

theorem buckets_revokeGrants : (a.revokeGrants save).2.buckets = a.buckets := by
  unfold revokeGrants
  repeat' first | rfl | dsimp only | split
  next hsave => exact (buckets_of_save hsave).trans rfl

/-! ## Calls that begin or end a check -/

theorem beginLogin_eq (key : String) : a.beginLoginLocked now key =
    let b := ((a.buckets.lookup key).getD {}).fresh now
    if now < b.lockedUntil then
      (some (b.lockedUntil - now), { a with buckets := a.buckets.insert key b })
    else if b.busy then (some (seconds 1), { a with buckets := a.buckets.insert key b })
    else (none, { a with buckets := a.buckets.insert key { b with busy := true } }) :=
  rfl

/-- A check that was asked for and has to wait. -/
theorem bucket_of_refused {a' : RemoteAuth} {key : String} {wait : Nat}
    (h : Begins now key (some wait) a a') :
    ∃ b, b = (a.buckets.lookup key).getD {} ∧ (now < b.lockedUntil ∨ b.busy = true) ∧
      a'.buckets = a.buckets.insert key (b.fresh now) := by
  obtain ⟨a₀, _, hsame, hbegin⟩ := h
  refine ⟨_, rfl, ?_⟩
  rw [← hsame]
  rw [beginLogin_eq] at hbegin
  dsimp only at hbegin
  split_ifs at hbegin with hlocked hbusy
  · cases hbegin
    rw [LoginBucket.fresh_lockedUntil] at hlocked
    exact ⟨.inl hlocked, rfl⟩
  · cases hbegin
    rw [LoginBucket.fresh_busy] at hbusy
    exact ⟨.inr hbusy, rfl⟩
  · cases hbegin

/-- A check that was asked for and begins. -/
theorem bucket_of_begun {a' : RemoteAuth} {key : String} (h : Begins now key none a a') :
    ∃ b, b = (a.buckets.lookup key).getD {} ∧ b.lockedUntil ≤ now ∧ b.busy = false ∧
      a'.buckets = a.buckets.insert key { b.fresh now with busy := true } := by
  obtain ⟨a₀, _, hsame, hbegin⟩ := h
  refine ⟨_, rfl, ?_⟩
  rw [← hsame]
  rw [beginLogin_eq] at hbegin
  dsimp only at hbegin
  split_ifs at hbegin with hlocked hbusy
  · cases hbegin
  · cases hbegin
  · cases hbegin
    rw [LoginBucket.fresh_lockedUntil, Nat.not_lt] at hlocked
    rw [LoginBucket.fresh_busy, Bool.not_eq_true] at hbusy
    exact ⟨hlocked, hbusy, rfl⟩

theorem buckets_endLogin {key : String} {ok : Bool} (k : String) :
    (a.endLoginLocked now key ok).buckets.lookup k =
      if k = key then (a.buckets.lookup k).map (LoginBucket.ended now ok)
      else a.buckets.lookup k := by
  unfold endLoginLocked
  split_ifs with hk
  · subst hk
    split
    · next hnone => rw [hnone, Option.map_none]
    · next b hb => rw [AList.lookup_insert, hb, Option.map_some]
  · split
    · rfl
    · exact AList.lookup_insert_ne hk

theorem buckets_loginChecked (f : SignIn) :
    (a.serveLoginChecked lib now draws save f).2.buckets =
      (a.endLoginLocked now f.key (passwordRight lib f.password f.encoded)).buckets := by
  unfold serveLoginChecked
  repeat' first | rfl | exact buckets_pending f | dsimp only | split
  all_goals
    next hissue =>
      exact (congrArg (fun r => r.2.buckets) hissue).symm.trans (buckets_issueSession _)

theorem buckets_consentChecked (f : ConsentSubmit) :
    (a.serveConsentChecked lib now f).2.buckets =
      (a.endLoginLocked now remoteConsentKey ((Check.consent f).right lib)).buckets := by
  unfold serveConsentChecked
  repeat' first | rfl | dsimp only | split

theorem lookup_dropped (gone : List String) (m : GoMap LoginBucket) (k : String) :
    (gone.foldl (fun m id => m.erase id) m).lookup k =
      if k ∈ gone then none else m.lookup k := by
  induction gone generalizing m with
  | nil => rfl
  | cons id gone ih =>
    rw [List.foldl_cons, ih]
    by_cases hk : k = id
    · subst hk
      rw [AList.lookup_erase]
      split_ifs with hmem hmem' <;> simp_all
    · rw [AList.lookup_erase_ne hk]
      simp only [List.mem_cons, hk, false_or]

end RemoteAuth

/-! ## Every call -/

open RemoteAuth

variable {k : String} {x : Action}

theorem moves_of_same {c' : Config} (hbuckets : c'.auth.buckets = c.auth.buckets)
    (hchecks : c'.checks = c.checks) : Moves lib k c x c' :=
  .idle (by rw [Config.bucket, Config.bucket, hbuckets])
    (by rw [Config.inFlight, Config.inFlight, hchecks])

/-- A check asked for under a key. -/
theorem moves_begin {r : Except Outcome Check × RemoteAuth}
    (h : (∃ o, r.1 = .error o ∧ (r.2.buckets = c.auth.buckets ∨
        ∃ key wait, Begins c.now key (some wait) c.auth r.2)) ∨
      ∃ check, r.1 = .ok check ∧ Begins c.now check.key none c.auth r.2) :
    Moves lib k c x (c.begin r).2 := by
  obtain ⟨o, ho, hsame | ⟨key, wait, hbegins⟩⟩ | ⟨check, hcheck, hbegins⟩ := h
  · rw [Config.begin, ho]
    exact moves_of_same hsame rfl
  · rw [Config.begin, ho]
    obtain ⟨b, hb, hlocked, hbuckets⟩ := bucket_of_refused hbegins
    by_cases hk : k = key
    · subst hk
      refine .refused hb hlocked ?_ rfl
      rw [Config.bucket, hbuckets, AList.lookup_insert]
    · refine .idle ?_ rfl
      rw [Config.bucket, Config.bucket, hbuckets, AList.lookup_insert_ne hk]
  · rw [Config.begin, hcheck]
    obtain ⟨b, hb, hfree, hidle, hbuckets⟩ := bucket_of_begun hbegins
    by_cases hk : check.key = k
    · subst hk
      refine .begun hb hfree hidle ?_ ?_ rfl
      · rw [Config.bucket, hbuckets, AList.lookup_insert]
      · exact List.filter_cons_of_pos (decide_eq_true rfl)
    · refine .idle ?_ ?_
      · rw [Config.bucket, Config.bucket, hbuckets, AList.lookup_insert_ne (Ne.symm hk)]
      · exact List.filter_cons_of_neg (by simpa using hk)

theorem bucket_of_finish {check : Check} {r : Outcome × RemoteAuth}
    (hbuckets : r.2.buckets =
      (c.auth.endLoginLocked c.now check.key (check.right lib)).buckets) :
    (c.finish check r).2.bucket k = if k = check.key
      then (c.bucket k).map (LoginBucket.ended c.now (check.right lib)) else c.bucket k := by
  rw [Config.bucket, Config.finish, hbuckets]
  exact buckets_endLogin k

/-- The call that ends a check, of its own bucket. -/
theorem bucket_of_ends {check : Check} (hends : x.ends = some check) :
    (x.act lib c).2.bucket check.key =
      (c.bucket check.key).map (LoginBucket.ended c.now (check.right lib)) := by
  cases x with
  | loginChecked draws save f =>
    cases hends
    exact (bucket_of_finish (buckets_loginChecked f)).trans (if_pos rfl)
  | consentChecked f =>
    cases hends
    exact (bucket_of_finish (buckets_consentChecked f)).trans (if_pos rfl)
  | _ => cases hends

/-- A check that ends under its key. -/
theorem moves_finish {check : Check} {r : Outcome × RemoteAuth} (hends : x.ends = some check)
    (hbuckets : r.2.buckets =
      (c.auth.endLoginLocked c.now check.key (check.right lib)).buckets) :
    Moves lib k c x (c.finish check r).2 := by
  have hlookup := bucket_of_finish (k := k) hbuckets
  by_cases hk : k = check.key
  · rw [if_pos hk] at hlookup
    refine .ended hends hk.symm hlookup ?_
    exact (List.erase_filter (f := fun check : Check => check.key = k)).symm
  · rw [if_neg hk] at hlookup
    refine .idle hlookup ?_
    have hnot : check ∉ c.inFlight k :=
      fun hmem => hk (of_decide_eq_true (List.mem_filter.1 hmem).2).symm
    have herase : (c.inFlight k).erase check = (c.checks.erase check).filter (·.key = k) :=
      List.erase_filter
    exact herase.symm.trans (List.erase_of_not_mem hnot)

/-- Devices removed, and nothing else of the buckets. -/
theorem moves_drop {gone : List String} {r : Outcome × RemoteAuth}
    (hbuckets : r.2.buckets = gone.foldl (fun m id => m.erase id) c.auth.buckets)
    (hdrops : k ∈ gone → x.Drops lib c k) : Moves lib k c x (c.after r).2 := by
  have hlookup : (c.after r).2.bucket k = if k ∈ gone then none else c.bucket k := by
    rw [Config.bucket, Config.after, hbuckets]
    exact lookup_dropped gone c.auth.buckets k
  by_cases hk : k ∈ gone
  · rw [if_pos hk] at hlookup
    exact .dropped (hdrops hk) hlookup rfl
  · rw [if_neg hk] at hlookup
    exact .idle hlookup rfl

theorem moves_setPassword (hash : Except String String) (save again : Option String)
    (password : String) : Moves lib k c (.setPassword hash save again password)
      ((Action.setPassword hash save again password).act lib c).2 := by
  dsimp only [Action.act]
  unfold setPassword
  split_ifs with hlength
  · exact moves_of_same rfl rfl
  rw [not_or, Nat.not_lt, Nat.not_lt] at hlength
  cases hash with
  | error err => exact moves_of_same rfl rfl
  | ok hash =>
    cases save with
    | some err => exact moves_of_same rfl rfl
    | none =>
      refine .dropped ⟨hlength.1, hlength.2, rfl, rfl⟩ ?_ rfl
      dsimp only [saveLocked, dropSessionsLocked, Config.after, Config.bucket]
      split_ifs
      · rfl
      · rw [buckets_trySave]
        rfl

theorem moves_removeDevice (save : Option String) (id : String) :
    Moves lib k c (.removeDevice save id) ((Action.removeDevice save id).act lib c).2 := by
  dsimp only [Action.act]
  unfold removeDevice
  split_ifs with hnone
  · exact moves_of_same rfl rfl
  cases save with
  | some err => exact moves_of_same rfl rfl
  | none =>
    refine moves_drop rfl fun hk => ?_
    obtain rfl := List.mem_singleton.1 hk
    exact ⟨rfl, Option.isSome_iff_ne_none.2 fun h => hnone (Option.isNone_iff_eq_none.2 h), rfl⟩

theorem moves_forgetHost (save : Option String) (host : String) :
    Moves lib k c (.forgetHost save host) ((Action.forgetHost save host).act lib c).2 := by
  dsimp only [Action.act]
  unfold forgetHost
  dsimp only
  split_ifs with hempty hgone
  · exact moves_of_same rfl rfl
  · exact moves_of_same rfl rfl
  cases save with
  | some err => exact moves_of_same rfl rfl
  | none =>
    refine moves_drop rfl fun hk => ⟨hempty, ?_, rfl⟩
    obtain ⟨d, hd, hid⟩ := List.mem_map.1 hk
    obtain ⟨hd, hhost⟩ := List.mem_filter.1 hd
    exact ⟨d, hd, of_decide_eq_true hhost, hid⟩

theorem moves_act : Moves lib k c x (x.act lib c).2 := by
  cases x with
  | tick elapsed => exact moves_of_same rfl rfl
  | setPassword hash save again password => exact moves_setPassword hash save again password
  | login r =>
    apply moves_begin
    obtain ⟨o, ho, _, hsame | ⟨wait, hbegins⟩⟩ | ⟨f, hf, _, _, _, _, hbegins⟩ :=
      @serveLogin_cases c.auth lib c.now r
    · exact .inl ⟨o, by rw [Prod.map_fst, ho]; rfl, .inl (congrArg RemoteAuth.buckets hsame)⟩
    · exact .inl ⟨o, by rw [Prod.map_fst, ho]; rfl, .inr ⟨_, wait, hbegins⟩⟩
    · exact .inr ⟨.signIn f, by rw [Prod.map_fst, hf]; rfl, hbegins⟩
  | loginChecked draws save f => exact moves_finish rfl (buckets_loginChecked f)
  | loginWait draws save token => exact moves_of_same (buckets_loginWait token) rfl
  | approveDevice draws save id name => exact moves_of_same (buckets_approveDevice id name) rfl
  | denyDevice id => exact moves_of_same (buckets_denyDevice id) rfl
  | removeDevice save id => exact moves_removeDevice save id
  | forgetHost save host => exact moves_forgetHost save host
  | revokeSessions => exact moves_of_same rfl rfl
  | logout token => exact moves_of_same (buckets_logout token) rfl
  | authorize token => exact moves_of_same (buckets_authorize token) rfl
  | sessionAlive id => exact moves_of_same (buckets_sessionAlive id) rfl
  | authorizeClient draws r => exact moves_of_same (buckets_authorizeClient r) rfl
  | consent r =>
    apply moves_begin
    obtain ⟨o, ho, _, ⟨_, hsame⟩ | ⟨wait, hbegins⟩⟩ | ⟨f, _, hf, _, _, _, _, _, hbegins⟩ :=
      @serveConsent_cases c.auth lib c.now r
    · exact .inl ⟨o, by rw [Prod.map_fst, ho]; rfl, .inl hsame⟩
    · exact .inl ⟨o, by rw [Prod.map_fst, ho]; rfl, .inr ⟨_, wait, hbegins⟩⟩
    · exact .inr ⟨.consent f, by rw [Prod.map_fst, hf]; rfl, hbegins⟩
  | consentChecked f => exact moves_finish rfl (buckets_consentChecked f)
  | decide draws id err => exact moves_of_same (buckets_decide id err) rfl
  | authorizeWait request csrf host =>
    exact moves_of_same (buckets_authorizeWait request csrf host) rfl
  | exchange draws save r => exact moves_of_same (buckets_exchange r) rfl
  | refresh draws save token clientID => exact moves_of_same (buckets_refresh token clientID) rfl
  | bearer token resource => exact moves_of_same (buckets_bearer token resource) rfl
  | revokeGrant save id => exact moves_of_same (buckets_revokeGrant id) rfl
  | revokeGrants save => exact moves_of_same buckets_revokeGrants rfl

end Konnekt.Remote
