import Mathlib
import Konnekt.Remote.Mirror

/-!
# Revoked sessions hear nothing more

A call that ends sessions names every one of them, and no session ever has the id of one
that was ended. Once the call has closed their sockets nothing is delivered under them,
as long as no handler that was authorized before is still on its way to the hub.
-/

namespace Konnekt.Remote

open Go

variable {lib : Platform} {a a' : RemoteAuth} {c : Config}

/-! ## The sessions a call ends -/

/-- Some sessions are dropped, and told by their ids. -/
structure Dropped (ids : List String) (m m' : GoMap SessionEntry) : Prop where
  gone : ∀ sid ∈ ids, ∃ k v, m.lookup k = some v ∧ v.id = sid ∧ m'.lookup k = none
  kept : ∀ k v, m'.lookup k = some v → m.lookup k = some v
  told : ∀ k v, m.lookup k = some v → m'.lookup k = none → v.id ∈ ids

namespace Dropped

variable {m : GoMap SessionEntry}

theorem refl (m : GoMap SessionEntry) : Dropped [] m m where
  gone _ hsid := nomatch hsid
  kept _ _ hk := hk
  told _ _ hk hnone := nomatch hk.symm.trans hnone

theorem deleteIf (p : SessionEntry → Bool) (m : GoMap SessionEntry) :
    Dropped ((m.values.filter p).map (·.id)) m (m.deleteIf p) where
  gone := by
    intro sid hsid
    obtain ⟨v, hv, rfl⟩ := List.mem_map.1 hsid
    obtain ⟨hmem, hp⟩ := List.mem_filter.1 hv
    obtain ⟨k, hk⟩ := GoMap.mem_values.1 hmem
    refine ⟨k, v, hk, rfl, Option.eq_none_iff_forall_not_mem.2 fun w hw => ?_⟩
    obtain ⟨hw, hnot⟩ := GoMap.lookup_deleteIf.1 hw
    cases hk.symm.trans hw
    cases hp.symm.trans hnot
  kept _ _ hk := (GoMap.lookup_deleteIf.1 hk).1
  told := by
    intro k v hk hnone
    refine List.mem_map_of_mem (List.mem_filter.2 ⟨GoMap.mem_values.2 ⟨k, hk⟩, ?_⟩)
    by_contra hp
    have hkept := GoMap.lookup_deleteIf.2 ⟨hk, Bool.eq_false_of_not_eq_true hp⟩
    cases hkept.symm.trans hnone

theorem erase {key : String} {s : SessionEntry} (hs : m.lookup key = some s) :
    Dropped [s.id] m (m.erase key) where
  gone := by
    intro sid hsid
    rw [List.mem_singleton.1 hsid]
    exact ⟨key, s, hs, rfl, AList.lookup_erase key m⟩
  kept _ _ hk := (GoMap.lookup_of_erase hk).2
  told := by
    intro k v hk hnone
    by_cases hkey : k = key
    · subst hkey
      cases hs.symm.trans hk
      exact List.mem_singleton_self _
    · rw [AList.lookup_erase_ne hkey] at hnone
      cases hk.symm.trans hnone

end Dropped

/-- A call that may end sessions names those it ends. -/
theorem dropped_of_revokes {x : Action} (hx : x.revokes = true) (c : Config) :
    (∃ ids, (x.act lib c).1 = .revoked ids ∧
      Dropped ids c.auth.sessions (x.act lib c).2.auth.sessions) ∨
    (∀ ids, (x.act lib c).1 ≠ .revoked ids) ∧
      (x.act lib c).2.auth.sessions = c.auth.sessions := by
  cases x with
  | setPassword hash save again password =>
    dsimp only [Action.act, Config.after]
    unfold RemoteAuth.setPassword
    split_ifs
    · exact .inr ⟨fun _ => nofun, rfl⟩
    cases hash with
    | error err => exact .inr ⟨fun _ => nofun, rfl⟩
    | ok hash =>
      cases save with
      | some err => exact .inr ⟨fun _ => nofun, rfl⟩
      | none =>
        refine .inl ⟨_, rfl, ?_⟩
        dsimp only [RemoteAuth.saveLocked, RemoteAuth.dropSessionsLocked]
        split_ifs
        · exact .deleteIf _ _
        · cases again <;> exact .deleteIf _ _
  | removeDevice save id =>
    dsimp only [Action.act, Config.after]
    unfold RemoteAuth.removeDevice
    split_ifs
    · exact .inr ⟨fun _ => nofun, rfl⟩
    cases save with
    | some err => exact .inr ⟨fun _ => nofun, rfl⟩
    | none => exact .inl ⟨_, rfl, .deleteIf _ _⟩
  | forgetHost save host =>
    dsimp only [Action.act, Config.after]
    unfold RemoteAuth.forgetHost
    dsimp only
    split_ifs
    · exact .inl ⟨[], rfl, .refl _⟩
    · exact .inl ⟨[], rfl, .refl _⟩
    cases save with
    | some err => exact .inr ⟨fun _ => nofun, rfl⟩
    | none => exact .inl ⟨_, rfl, .deleteIf _ _⟩
  | revokeSessions => exact .inl ⟨_, rfl, .deleteIf _ _⟩
  | logout token =>
    dsimp only [Action.act, Config.after]
    unfold RemoteAuth.serveLogout
    dsimp only
    split
    · exact .inl ⟨[], rfl, .refl _⟩
    · next s hs =>
      split_ifs at hs
      exact .inl ⟨_, rfl, .erase hs⟩
  | _ => cases hx

/-! ## Sessions of their own ids -/

/-- A session a call leaves was there with its id, or has the id and the token the call drew. -/
theorem session_of_change {now : Nat} {x : Action} {o : Outcome}
    (hchange : Change lib now x a o a') {k : String} {v : SessionEntry}
    (hk : a'.sessions.lookup k = some v) :
    (∃ s, a.sessions.lookup k = some s ∧ s.id = v.id) ∨
      ∃ token, x.draws.token = .ok token ∧ k = lib.tokenHash token ∧ x.draws.id = .ok v.id := by
  cases hchange with
  | kept _ hkeeps =>
    obtain ⟨s, hs, _, rfl⟩ := hkeeps.sessions k v hk
    exact .inl ⟨s, hs, rfl⟩
  | @added mid mid' hbefore hadds hafter =>
    obtain ⟨v', hv', _, rfl⟩ := hafter.sessions k v hk
    have hmid : mid.sessions.lookup k = some v' ∨
        ∃ token, x.draws.token = .ok token ∧ k = lib.tokenHash token ∧
          x.draws.id = .ok v'.id := by
      cases hadds with
      | passwordSet hset =>
        rw [hset.sessions] at hv'
        cases hv'
      | signedIn _ _ htoken hid =>
        obtain ⟨rfl, rfl⟩ | ⟨_, hold⟩ := GoMap.lookup_of_insert hv'
        · exact .inr ⟨_, htoken, rfl, hid⟩
        · exact .inl hold
      | collected _ _ _ _ htoken hid =>
        obtain ⟨rfl, rfl⟩ | ⟨_, hold⟩ := GoMap.lookup_of_insert hv'
        · exact .inr ⟨_, htoken, rfl, hid⟩
        · exact .inl hold
      | _ => exact .inl hv'
    obtain hold | hnew := hmid
    · obtain ⟨s, hs, _, rfl⟩ := hbefore.sessions k v' hold
      exact .inl ⟨s, hs, rfl⟩
    · exact .inr hnew

/-- No two sessions have the same id. -/
def Apart (m : GoMap SessionEntry) : Prop :=
  ∀ k k' v v', m.lookup k = some v → m.lookup k' = some v' → v.id = v'.id → k = k'

theorem Apart.act {h : History} (hapart : Apart c.auth.sessions) (hknown : c.Known lib h)
    {x : Action} (hfresh : Fresh lib h x) : Apart (x.act lib c).2.auth.sessions := by
  have hchange : Change lib c.now x c.auth (x.act lib c).1 (x.act lib c).2.auth := change_act x c
  intro k k' v v' hk hk' hid
  obtain ⟨s, hs, hsv⟩ | ⟨token, htoken, rfl, hnew⟩ := session_of_change hchange hk
  · obtain ⟨s', hs', hsv'⟩ | ⟨_, _, _, hnew'⟩ := session_of_change hchange hk'
    · exact hapart k k' s s' hs hs' (by rw [hsv, hsv', hid])
    · refine absurd ?_ (hfresh.ne (Draws.mem_id hnew') (hknown.auth.sessions k s hs).2)
      rw [hsv, hid]
  · obtain ⟨s', hs', hsv'⟩ | ⟨token', htoken', rfl, _⟩ := session_of_change hchange hk'
    · refine absurd ?_ (hfresh.ne (Draws.mem_id hnew) (hknown.auth.sessions k' s' hs').2)
      rw [hsv', hid]
    · cases htoken.symm.trans htoken'
      rfl

/-- A session that was ended: its id was drawn, and no session has it. -/
structure Over (lib : Platform) (h : History) (a : RemoteAuth) (sid : String) : Prop where
  drawn : Drawn lib h sid
  gone : ∀ k v, a.sessions.lookup k = some v → v.id ≠ sid

theorem Over.act {h : History} {sid : String} (hover : Over lib h c.auth sid) {x : Action}
    (hfresh : Fresh lib h x) : Over lib ((c, x) :: h) (x.act lib c).2.auth sid where
  drawn := hover.drawn.cons _
  gone := by
    intro k v hk hid
    obtain ⟨s, hs, hsv⟩ | ⟨_, _, _, hnew⟩ := session_of_change (change_act x c) hk
    · exact hover.gone k s hs (hsv.trans hid)
    · exact hfresh.ne (Draws.mem_id hnew) hover.drawn hid.symm

/-- What a call names is over. -/
theorem Over.of_dropped {h : History} (hknown : c.Known lib h) (hapart : Apart c.auth.sessions)
    {x : Action} {ids : List String}
    (hdropped : Dropped ids c.auth.sessions (x.act lib c).2.auth.sessions) {sid : String}
    (hsid : sid ∈ ids) : Over lib ((c, x) :: h) (x.act lib c).2.auth sid := by
  obtain ⟨k, v, hk, rfl, hnone⟩ := hdropped.gone sid hsid
  refine ⟨(hknown.auth.sessions k v hk).2.cons _, fun k' v' hk' hid => ?_⟩
  obtain rfl := hapart k k' v v' hk (hdropped.kept k' v' hk') hid.symm
  cases hk'.symm.trans hnone

namespace Sockets

open Function (update update_self update_of_ne)

/-! ## The sockets of a session -/

/-- A socket under a session is a member, or on its way to be. -/
inductive Open (s : Mirror) : String → Prop
  | upgrade {id : Nat} {u : Upgrade} (hu : s.upgrades id = some u) : Open s u.client.session
  | member {id : Nat} {c : RemoteClient} (hc : s.hub.clients id = some c) : Open s c.session

variable {m m' : Mirror} {sid : String}

/-- One handler further, or gone. -/
theorem Open.of_upgrades {id : Nat} {o : Option Upgrade}
    (hopen : Open { m with upgrades := update m.upgrades id o } sid) :
    Open m sid ∨ ∃ u, o = some u ∧ u.client.session = sid := by
  cases hopen with
  | @upgrade id' u hu =>
    by_cases hid : id' = id
    · subst hid
      exact .inr ⟨u, (update_self id' o m.upgrades).symm.trans hu, rfl⟩
    · exact .inl (.upgrade ((update_of_ne hid o m.upgrades).symm.trans hu))
  | member hc => exact .inl (.member hc)

/-- One member more, in place of another, or gone. -/
theorem Open.of_clients {id : Nat} {o : Option RemoteClient}
    (hopen : Open { m with hub.clients := update m.hub.clients id o } sid) :
    Open m sid ∨ ∃ c, o = some c ∧ c.session = sid := by
  cases hopen with
  | upgrade hu => exact .inl (.upgrade hu)
  | @member id' c hc =>
    by_cases hid : id' = id
    · subst hid
      exact .inr ⟨c, (update_self id' o m.hub.clients).symm.trans hc, rfl⟩
    · exact .inl (.member ((update_of_ne hid o m.hub.clients).symm.trans hc))

theorem Open.of_replay {id : Nat} (hopen : Open (m.replay id) sid) : Open m sid := by
  unfold Mirror.replay at hopen
  split at hopen
  · exact hopen
  next u hu =>
  split_ifs at hopen
  · exact hopen
  obtain hopen | ⟨u', hu', rfl⟩ := hopen.of_upgrades
  · exact hopen
  · obtain ⟨c, hc, rfl⟩ := Option.map_eq_some_iff.1 hu'
    have hsame : c.session = u.client.session := (send_of_welcome hc).1
    dsimp only
    rw [hsame]
    exact .upgrade hu

theorem Open.of_add {id : Nat} (hopen : Open (m.add id) sid) : Open m sid := by
  unfold Mirror.add at hopen
  split at hopen
  · exact hopen
  next u hu =>
  split_ifs at hopen
  · obtain hopen | ⟨c, hc, rfl⟩ :=
      Open.of_clients (m := { m with upgrades := update m.upgrades id none }) hopen
    · obtain hopen | ⟨_, hnone, _⟩ := hopen.of_upgrades
      · exact hopen
      · cases hnone
    · cases hc
      exact .upgrade hu
  · exact hopen

theorem Open.of_write {id : Nat} (hopen : Open (m.write id) sid) : Open m sid := by
  unfold Mirror.write at hopen
  split at hopen
  · next session _ ms hc =>
    obtain hopen | ⟨_, hsome, rfl⟩ := Open.of_clients
      (m := { m with wire := update m.wire id _ }) hopen
    · cases hopen with
      | upgrade hu => exact .upgrade hu
      | member hc => exact .member hc
    · cases hsome
      have hold : Open m session := .member hc
      exact hold
  · exact hopen

/-- Nothing about the hub and its sockets opens one but an upgrade. -/
theorem Open.of_act {x : Mirror.Action} (hx : opens x = false) (hopen : Open (x.act m).2 sid) :
    Open m sid := by
  cases x with
  | publish event data =>
    cases hopen with
    | upgrade hu => exact .upgrade hu
    | member hc =>
      cases data with
      | none => exact .member hc
      | some data =>
        obtain ⟨c, hold, hqueue⟩ := Option.bind_eq_some_iff.1 hc
        unfold RemoteClient.queue at hqueue
        split_ifs at hqueue
        cases hqueue
        have hheld : Open m c.session := .member hold
        exact hheld
  | newRun run =>
    cases hopen with
    | upgrade hu => exact .upgrade hu
    | member hc => exact .member hc
  | closeAll =>
    cases hopen with
    | upgrade hu => exact .upgrade hu
    | member hc => cases hc
  | replay id => exact hopen.of_replay
  | add id => exact hopen.of_add
  | write id => exact hopen.of_write
  | remove id =>
    obtain hopen | ⟨_, hnone, _⟩ := Open.of_clients hopen
    · exact hopen
    · cases hnone
  | receive =>
    dsimp only [Mirror.Action.act, Mirror.receive] at hopen
    split at hopen
    · exact hopen
    · split at hopen
      · exact hopen
      · cases hopen with
        | upgrade hu => exact .upgrade hu
        | member hc => exact .member hc
  | close =>
    cases hopen with
    | upgrade hu => exact .upgrade hu
    | member hc => exact .member hc
  | reload =>
    cases hopen with
    | upgrade hu => exact .upgrade hu
    | member hc => exact .member hc
  | _ => cases hx

/-! ## Every run -/

/-- No handler that was authorized under the sessions a call closes is on its way to the hub. -/
def Joined (s : Sockets) : Action → Prop
  | .close ids =>
    ∀ id < s.mirror.next, ∀ u ∈ s.mirror.upgrades id, u.client.session ∉ ids
  | _ => True

instance (s : Sockets) (x : Action) : Decidable (Joined s x) :=
  match x with
  | .close ids => inferInstanceAs (Decidable
      (∀ id < s.mirror.next, ∀ u ∈ s.mirror.upgrades id, u.client.session ∉ ids))
  | .call _ | .upgrade .. | .fail _ | .socket _ => inferInstanceAs (Decidable True)

variable {h : Labelled.History Sockets Action} {s : Sockets}

/-- What holds throughout a run. -/
structure Revoked (lib : Platform) (h : Labelled.History Sockets Action) (s : Sockets) : Prop where
  apart : Apart s.service.auth.sessions
  numbered : ∀ id, s.mirror.next ≤ id → s.mirror.upgrades id = none
  closing : ∀ ids ∈ s.closing, ∀ sid ∈ ids, Over lib (calls h) s.service.auth sid
  closed : ∀ e ∈ h, ∀ ids, e.2 = .close ids → ∀ sid ∈ ids,
    Over lib (calls h) s.service.auth sid ∧ ¬ Open s.mirror sid

/-- A history of the sockets has one of the service in it. -/
theorem calls_of_run {allowed : Labelled.History Sockets Action → Sockets → Action → Prop}
    (hrun : Labelled.Run (system lib) allowed {} h s)
    (hle : ∀ h s x, allowed h s x → Fresh lib h x) :
    Labelled.Run (Remote.calls lib) (fun h _ x => Remote.Fresh lib h x) {} (calls h) s.service := by
  refine hrun.part Sockets.service Action.service ?_ ?_
  · intro h s x y hy henabled hallowed
    refine ⟨?_, hle h s x hallowed y hy, ?_⟩
    · cases x with
      | call x =>
        cases hy
        exact henabled
      | upgrade token since run =>
        cases hy
        refine ⟨?_, ?_⟩
        · exact fun _ hends => nomatch hends
        · exact fun _ hanswers => nomatch hanswers
      | _ => cases hy
    · cases x with
      | call x =>
        cases hy
        rfl
      | upgrade token since run =>
        cases hy
        dsimp only [system, Action.act]
        split <;> rfl
      | _ => cases hy
  · intro s x hx
    cases x with
    | call x => cases hx
    | upgrade token since run => cases hx
    | _ => rfl

/-- Nothing about the hub and its sockets starts a handler but an upgrade. -/
theorem upgrades_act {x : Mirror.Action} (hx : opens x = false) :
    (x.act m).2.next = m.next ∧
      ∀ id, m.upgrades id = none → (x.act m).2.upgrades id = none := by
  cases x with
  | replay id =>
    dsimp only [Mirror.Action.act]
    unfold Mirror.replay
    split
    · exact ⟨rfl, fun _ hnone => hnone⟩
    next u hu =>
    split_ifs
    · exact ⟨rfl, fun _ hnone => hnone⟩
    refine ⟨rfl, fun id' hnone => ?_⟩
    have hid : id' ≠ id := by
      rintro rfl
      cases hu.symm.trans hnone
    exact (update_of_ne hid _ _).trans hnone
  | add id =>
    dsimp only [Mirror.Action.act]
    unfold Mirror.add
    split
    · exact ⟨rfl, fun _ hnone => hnone⟩
    next u hu =>
    split_ifs
    · refine ⟨rfl, fun id' hnone => ?_⟩
      have hid : id' ≠ id := by
        rintro rfl
        cases hu.symm.trans hnone
      exact (update_of_ne hid _ _).trans hnone
    · exact ⟨rfl, fun _ hnone => hnone⟩
  | write id =>
    dsimp only [Mirror.Action.act]
    unfold Mirror.write
    split <;> exact ⟨rfl, fun _ hnone => hnone⟩
  | receive =>
    dsimp only [Mirror.Action.act]
    unfold Mirror.receive
    split
    · exact ⟨rfl, fun _ hnone => hnone⟩
    · split <;> exact ⟨rfl, fun _ hnone => hnone⟩
  | connect | «open» | closeSessions => cases hx
  | _ => exact ⟨rfl, fun _ hnone => hnone⟩

/-- A step that leaves the service alone, and opens no socket. -/
theorem Revoked.quiet (hrevoked : Revoked lib h s) {x : Action} (hx : x.service = none)
    {mirror : Mirror} {closing : List (List String)}
    (hnumbered : mirror.next = s.mirror.next ∧
      ∀ id, s.mirror.upgrades id = none → mirror.upgrades id = none)
    (hopen : ∀ sid, Open mirror sid → Open s.mirror sid)
    (hclosing : ∀ ids ∈ closing, ids ∈ s.closing)
    (hclosed : ∀ ids, x = .close ids → ids ∈ s.closing ∧ ∀ sid ∈ ids, ¬ Open mirror sid) :
    Revoked lib ((s, x) :: h) { s with mirror, closing } where
  apart := hrevoked.apart
  numbered id hid := hnumbered.2 id (hrevoked.numbered id (hnumbered.1 ▸ hid))
  closing ids hids sid hsid := by
    have hover := hrevoked.closing ids (hclosing ids hids) sid hsid
    have hsame : calls ((s, x) :: h) = calls h := by
      rw [calls, Labelled.History.part, List.filterMap_cons, hx]
      rfl
    rw [hsame]
    exact hover
  closed e he ids hclose sid hsid := by
    have hsame : calls ((s, x) :: h) = calls h := by
      rw [calls, Labelled.History.part, List.filterMap_cons, hx]
      rfl
    rw [hsame]
    obtain rfl | he := List.mem_cons.1 he
    · obtain ⟨hmem, hnot⟩ := hclosed ids hclose
      exact ⟨hrevoked.closing ids hmem sid hsid, hnot sid hsid⟩
    · obtain ⟨hover, hnot⟩ := hrevoked.closed e he ids hclose sid hsid
      exact ⟨hover, fun hnow => hnot (hopen sid hnow)⟩

/-- Upgraded handlers are of a session that is not over. -/
theorem Open.of_upgrade {session : String} {since : Nat} {run : String}
    (hopen : Open (m.upgrade session since run) sid) : Open m sid ∨ sid = session := by
  obtain hold | ⟨u, hu, rfl⟩ :=
    Open.of_upgrades (m := { m with next := m.next + 1 }) hopen
  · cases hold with
    | upgrade hu => exact .inl (.upgrade hu)
    | member hc => exact .inl (.member hc)
  · cases hu
    exact .inr rfl

/-- A call of the service, after which at most one socket of a session that stands is opened. -/
theorem Revoked.call (hrevoked : Revoked lib h s)
    (hrun : Labelled.Run (Remote.calls lib) (fun h _ x => Remote.Fresh lib h x) {} (calls h)
      s.service) {x : Action} {y : Remote.Action} (hy : x.service = some y)
    (hfresh : Remote.Fresh lib (calls h) y) {mirror : Mirror} {closing : List (List String)}
    (hnumbered : ∀ id, mirror.next ≤ id → mirror.upgrades id = none)
    (hopen : ∀ sid, Open mirror sid → Open s.mirror sid ∨
      ∃ k v, s.service.auth.sessions.lookup k = some v ∧ v.id = sid)
    (hclosing : ∀ ids ∈ closing, ids ∈ s.closing ∨
      Dropped ids s.service.auth.sessions (y.act lib s.service).2.auth.sessions) :
    Revoked lib ((s, x) :: h) ⟨(y.act lib s.service).2, mirror, closing⟩ := by
  have hmore : calls ((s, x) :: h) = (s.service, y) :: calls h := by
    rw [calls, Labelled.History.part, List.filterMap_cons, hy]
    rfl
  have hknown := known_of_run hrun
  refine ⟨hrevoked.apart.act hknown hfresh, hnumbered, ?_, ?_⟩
  · intro ids hids sid hsid
    rw [hmore]
    obtain hold | hdropped := hclosing ids hids
    · exact (hrevoked.closing ids hold sid hsid).act hfresh
    · exact .of_dropped hknown hrevoked.apart hdropped hsid
  · intro e he ids hclose sid hsid
    rw [hmore]
    obtain rfl | he := List.mem_cons.1 he
    · obtain rfl : x = .close ids := hclose
      cases hy
    · obtain ⟨hover, hnot⟩ := hrevoked.closed e he ids hclose sid hsid
      refine ⟨hover.act hfresh, fun hnow => ?_⟩
      obtain hold | ⟨k, v, hk, hv⟩ := hopen sid hnow
      · exact hnot hold
      · exact hover.gone k v hk hv

theorem revoked_of_run
    (hrun : Labelled.Run (system lib) (fun h s x => Fresh lib h x ∧ Joined s x) {} h s) :
    Revoked lib h s := by
  refine hrun.invariant (P := Revoked lib) ⟨?_, fun _ _ => rfl, ?_, ?_⟩ ?_
  · intro _ _ _ _ hk
    cases hk
  · exact fun _ hids => nomatch hids
  · exact fun _ he => nomatch he
  intro h s x hrun hrevoked henabled ⟨hfresh, hjoined⟩
  have hcalls := calls_of_run hrun fun _ _ _ hallowed => hallowed.1
  cases x with
  | call y =>
    refine hrevoked.call hcalls (y := y) rfl (hfresh y rfl) hrevoked.numbered
      (fun _ => .inl) fun ids hids => ?_
    obtain hold | htold := List.mem_append.1 hids
    · -- What the call names was dropped by it.
      refine .inr ?_
      have hids : told y (y.act lib s.service).1 = some ids := Option.mem_toList.1 hold
      unfold told at hids
      split at hids
      · next ids' ho =>
        split_ifs at hids with hrevokes
        cases hids
        obtain ⟨_, hanswer, hdropped⟩ | ⟨hnot, _⟩ := dropped_of_revokes hrevokes s.service
        · cases ho.symm.trans hanswer
          exact hdropped
        · exact absurd ho (hnot _)
      · cases hids
    · exact .inl htold
  | close ids =>
    refine hrevoked.quiet rfl ⟨rfl, fun _ hnone => hnone⟩ ?_ (fun _ => List.mem_of_mem_erase) ?_
    · intro sid hopen
      cases hopen with
      | upgrade hu => exact .upgrade hu
      | member hc => exact .member (Option.filter_eq_some_iff.1 hc).1
    · intro ids' hids
      cases hids
      refine ⟨henabled, fun sid hsid hopen => ?_⟩
      cases hopen with
      | @upgrade id u hu =>
        have hlt : id < s.mirror.next := by
          by_contra hle
          cases (hrevoked.numbered id (Nat.not_lt.1 hle)).symm.trans hu
        exact hjoined id hlt u hu hsid
      | member hc => exact of_decide_eq_true (Option.filter_eq_some_iff.1 hc).2 hsid
  | upgrade token since run =>
    dsimp only [system, Action.act]
    split
    · next sid device ho =>
      refine hrevoked.call hcalls (x := .upgrade token since run) rfl (hfresh _ rfl)
        (fun id hid => ?_) (fun sid' hopen => ?_) fun _ => .inl
      · have hne : id ≠ s.mirror.next := Nat.ne_of_gt hid
        exact (update_of_ne hne _ _).trans (hrevoked.numbered id (Nat.le_of_succ_le hid))
      · obtain hold | rfl := hopen.of_upgrade
        · exact .inl hold
        · obtain ⟨v, hv, hid, _⟩ := accepted_of_authorize ho
          exact .inr ⟨_, v, hv, hid⟩
    · exact hrevoked.call hcalls (x := .upgrade token since run) rfl (hfresh _ rfl)
        hrevoked.numbered (fun _ => .inl) fun _ => .inl
  | fail id =>
    refine hrevoked.quiet rfl ⟨rfl, fun id' hnone => ?_⟩ (fun sid hopen => ?_) (fun _ hids => hids)
      fun _ hclose => nomatch hclose
    · by_cases hid : id' = id
      · subst hid
        exact update_self _ _ _
      · exact (update_of_ne hid _ _).trans hnone
    · obtain hold | ⟨_, hnone, _⟩ := Open.of_upgrades hopen
      · exact hold
      · cases hnone
  | socket x =>
    exact hrevoked.quiet rfl (upgrades_act henabled) (fun _ => Open.of_act henabled)
      (fun _ hids => hids) fun _ hclose => nomatch hclose

/-- As long as no handler that was authorized before is on its way to the hub when a call closes the
sockets of the sessions it ended: the call names every session it ended, and once it has closed
their sockets none is a member, ever after, so nothing that is published reaches one. -/
theorem revoked_sockets
    (hrun : Labelled.Run (system lib) (fun h s x => Fresh lib h x ∧ Joined s x) {} h s) :
    (∀ e ∈ h, ∀ x, e.2 = .call x → x.revokes = true → ∀ k v,
      e.1.service.auth.sessions.lookup k = some v →
      (x.act lib e.1.service).2.auth.sessions.lookup k = none →
      ∃ ids, (system lib).answer e = .revoked ids ∧ v.id ∈ ids ∧
        ids ∈ ((system lib).act e.2 e.1).2.closing) ∧
    ∀ e ∈ h, ∀ ids, e.2 = .close ids →
      (∀ id c, s.mirror.hub.clients id = some c → c.session ∉ ids) ∧
      ∀ event data id c, (s.mirror.hub.publish event data).clients id = some c → c.session ∉ ids :=
    by
  have hrevoked := revoked_of_run hrun
  refine ⟨?_, ?_⟩
  · rintro ⟨s, _⟩ _ x rfl hrevokes k v hk hnone
    obtain ⟨ids, hanswer, hdropped⟩ | ⟨_, hsame⟩ := dropped_of_revokes hrevokes s.service
    · refine ⟨ids, hanswer, hdropped.told k v hk hnone, ?_⟩
      have htold : told x (x.act lib s.service).1 = some ids := by
        rw [hanswer]
        exact if_pos hrevokes
      exact List.mem_append_left _ (Option.mem_toList.2 htold)
    · rw [hsame] at hnone
      cases hk.symm.trans hnone
  · intro e he ids hclose
    have hnot : ∀ sid ∈ ids, ¬ Open s.mirror sid :=
      fun sid hsid => (hrevoked.closed e he ids hclose sid hsid).2
    refine ⟨fun id c hc hmem => hnot _ hmem (.member hc), ?_⟩
    intro event data id c hc hmem
    refine hnot _ hmem (Open.of_act (x := .publish event data) rfl ?_)
    exact .member hc

section

/-- A phone signs in, is approved, collects the approval, and asks for a socket. -/
private def asksForSocket : List Action :=
  [.upgrade "session" 0 "",
    .call (.loginWait { id := .ok "session000000001", token := .ok "session" } none "device"),
    .call (.approveDevice { id := .ok "device0000000001" } none "request000000001" "phone"),
    .call (.loginChecked
      { id := .ok "request000000001", token := .ok "device", code := .ok "1234" } none
      ⟨"", "hash of correct horse battery", "correct horse battery", "", "", "phone"⟩),
    .call (.login ⟨"application/json", some "correct horse battery", "", "", "phone"⟩),
    .call (.setPassword (.ok "hash of correct horse battery") none none "correct horse battery")]

/-- The socket joins the hub, and the sessions are revoked. -/
private def joinsFirst : List Action :=
  [.close ["session000000001"], .call .revokeSessions, .socket (.add 0), .socket (.replay 0)] ++
    asksForSocket

theorem revoked_sockets_phone :
    ¬ ∃ event data id c,
      (((system samplePlatform).play {} joinsFirst).2.mirror.hub.publish event data).clients id =
        some c ∧ c.session ∈ ["session000000001"] := by
  have hplayable : (system samplePlatform).Playable
      (fun h s x => Fresh samplePlatform h x ∧ Joined s x) {} joinsFirst := by decide +kernel
  rintro ⟨event, data, id, c, hclient, hsession⟩
  exact ((revoked_sockets hplayable.run).2 _ List.mem_cons_self _ rfl).2 event data id c hclient
    hsession

/-- The sessions are revoked between the replay and the addition. -/
private def joinsLater : List Action :=
  [.socket (.publish "status" (some "up")), .socket (.add 0), .close ["session000000001"],
    .call .revokeSessions, .socket (.replay 0)] ++ asksForSocket

/-- The revocation has returned, and an event that is published after it is delivered. -/
theorem revoked_hears :
    Labelled.Run (system samplePlatform) (fun h _ x => Fresh samplePlatform h x) {}
        ((system samplePlatform).play {} joinsLater).1
        ((system samplePlatform).play {} joinsLater).2 ∧
      (∃ e ∈ ((system samplePlatform).play {} joinsLater).1, e.2 = .close ["session000000001"]) ∧
      ((system samplePlatform).play {} joinsLater).2.mirror.hub.clients 0 =
        some ⟨"session000000001", [.hello 0 0 false "", .event ⟨1, "status", "up"⟩]⟩ := by
  refine ⟨Labelled.System.Playable.run (by decide +kernel), ?_, by decide +kernel⟩
  exact ⟨_, List.mem_of_getElem? (i := 2) rfl, rfl⟩

end

end Sockets

end Konnekt.Remote
