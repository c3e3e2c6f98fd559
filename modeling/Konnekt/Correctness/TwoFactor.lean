import Konnekt.Remote.Names

/-!
# Two factors

A session that is let in belongs to a device the desktop approved, on a request that
was made with the right password. The session itself was opened with the right
password, or by collecting that approval, once.
-/

namespace Konnekt.Remote

open Go

variable {lib : Platform} {h : History} {a a' : RemoteAuth} {c : Config}

/-! ## What happened -/

section

variable (lib : Platform) (e : Config × Action)

/-- A right password makes a request. -/
def Requests (request : String) : Prop :=
  ∃ draws save f token code, e.2 = .loginChecked draws save f ∧
    RemoteAuth.passwordRight lib f.password f.encoded = true ∧
    (calls lib).answer e = .requested request token code

/-- The desktop approves a request: it becomes a device. -/
def Approves (request device : String) : Prop :=
  ∃ draws save name, e.2 = .approveDevice draws save request name ∧
    (calls lib).answer e = .approved request device

/-- A right password opens a session of a device. -/
def SignsIn (key session device : String) : Prop :=
  ∃ draws save f token, e.2 = .loginChecked draws save f ∧
    RemoteAuth.passwordRight lib f.password f.encoded = true ∧
    (calls lib).answer e = .signedIn token session device ∧ lib.tokenHash token = key

/-- An approval is collected: it opens a session of the device. -/
def Collects (request key session device : String) : Prop :=
  ∃ draws save deviceToken token, e.2 = .loginWait draws save deviceToken ∧
    (calls lib).answer e = .collected request token session device ∧ lib.tokenHash token = key

/-- A device is removed, by itself or with its host. -/
def Removes (device : String) : Prop :=
  (∃ save ids, e.2 = .removeDevice save device ∧ (calls lib).answer e = .revoked ids) ∨
    ∃ save host ids, e.2 = .forgetHost save host ∧ (calls lib).answer e = .revoked ids ∧
      lib.toLower host ≠ "" ∧ ∃ d ∈ e.1.auth.state.devices, d.id = device ∧ d.host = lib.toLower host

end

/-- A request that was made with the right password and then approved. -/
def Approved (lib : Platform) (h : History) (request device : String) (e₂ e₁ : Config × Action) :
    Prop :=
  [e₂, e₁].Sublist h ∧ Approves lib e₂ request device ∧ Requests lib e₁ request

/-- A session that was opened with the right password, or by collecting an approval. -/
def Entered (lib : Platform) (h : History) (key session device : String) : Prop :=
  (∃ e ∈ h, SignsIn lib e key session device) ∨
    ∃ request e₃ e₂ e₁, [e₃, e₂, e₁].Sublist h ∧ Collects lib e₃ request key session device ∧
      Approves lib e₂ request device ∧ Requests lib e₁ request

/-- Whether an answer tells of the collection of a request. -/
def Outcome.collects (request : String) : Outcome → Bool
  | .collected request' _ _ _ => request' = request
  | _ => false

/-- Whether an answer tells of the approval that added a device. -/
def Outcome.approves (device : String) : Outcome → Bool
  | .approved _ device' => device' = device
  | _ => false

/-! ## The invariant -/

/-- Devices, sessions and requests go back to what they were earned by, and a request that was
collected is gone. -/
structure Vouched (lib : Platform) (h : History) (a : RemoteAuth) : Prop where
  devices : ∀ d ∈ a.state.devices, ∃ request e₂ e₁, Approved lib h request d.id e₂ e₁
  sessions : ∀ k s, a.sessions.lookup k = some s → Entered lib h k s.id s.deviceID
  requested : ∀ k p, a.pending.lookup k = some p → ∃ e ∈ h, Requests lib e k
  granted : ∀ k p, a.pending.lookup k = some p → p.granted = true →
    ∃ e₂ e₁, Approved lib h k p.deviceID e₂ e₁
  collected : ∀ e ∈ h, ∀ request, ((calls lib).answer e).collects request = true →
    Drawn lib h request ∧ a.pending.lookup request = none

theorem Approved.cons {request device : String} {e₂ e₁ : Config × Action}
    (happroved : Approved lib h request device e₂ e₁) (e : Config × Action) :
    Approved lib (e :: h) request device e₂ e₁ :=
  ⟨happroved.1.cons e, happroved.2⟩

theorem Entered.cons {key session device : String} (hentered : Entered lib h key session device)
    (e : Config × Action) : Entered lib (e :: h) key session device := by
  obtain ⟨e₀, hmem, hsigns⟩ | ⟨request, e₃, e₂, e₁, hsub, hrest⟩ := hentered
  · exact .inl ⟨e₀, List.mem_cons_of_mem e hmem, hsigns⟩
  · exact .inr ⟨request, e₃, e₂, e₁, hsub.cons e, hrest⟩

namespace Vouched

theorem empty : Vouched lib [] {} where
  devices _ hd := by cases hd
  sessions _ _ hk := by cases hk
  requested _ _ hk := by cases hk
  granted _ _ hk := by cases hk
  collected _ he := by cases he

theorem keeps (hvouched : Vouched lib h a) (hkeeps : Keeps a a') : Vouched lib h a' where
  devices d' hd := by
    obtain ⟨d, hmem, hcore⟩ := hkeeps.mem_devices hd
    obtain ⟨_, rfl⟩ := DeviceRecord.of_core hcore
    exact hvouched.devices d hmem
  sessions k s' hk := by
    obtain ⟨s, hs, _, rfl⟩ := hkeeps.sessions k s' hk
    exact hvouched.sessions k s hs
  requested k p hk := by
    obtain ⟨_, hp, rfl⟩ := hkeeps.pending k p hk
    exact hvouched.requested k _ hp
  granted k p hk := by
    obtain ⟨_, hp, rfl⟩ := hkeeps.pending k p hk
    exact hvouched.granted k _ hp
  collected e he request hcollects := by
    obtain ⟨hdrawn, hgone⟩ := hvouched.collected e he request hcollects
    refine ⟨hdrawn, Option.eq_none_iff_forall_ne_some.2 fun p hp => ?_⟩
    obtain ⟨_, hp, _⟩ := hkeeps.pending request p hp
    rw [hgone] at hp
    cases hp

/-- An event that collects no request that is still there. -/
theorem cons (hvouched : Vouched lib h a) {e : Config × Action}
    (hcollects : ∀ request, ((calls lib).answer e).collects request = true →
      Drawn lib h request ∧ a.pending.lookup request = none) : Vouched lib (e :: h) a where
  devices d hd := by
    obtain ⟨request, e₂, e₁, happroved⟩ := hvouched.devices d hd
    exact ⟨request, e₂, e₁, happroved.cons e⟩
  sessions k s hk := (hvouched.sessions k s hk).cons e
  requested k p hk := by
    obtain ⟨e₁, hmem, hrequests⟩ := hvouched.requested k p hk
    exact ⟨e₁, List.mem_cons_of_mem e hmem, hrequests⟩
  granted k p hk hgranted := by
    obtain ⟨e₂, e₁, happroved⟩ := hvouched.granted k p hk hgranted
    exact ⟨e₂, e₁, happroved.cons e⟩
  collected e' he request hcollected := by
    obtain rfl | hmem := List.mem_cons.1 he
    · exact ⟨(hcollects request hcollected).1.cons e', (hcollects request hcollected).2⟩
    · obtain ⟨hdrawn, hgone⟩ := hvouched.collected e' hmem request hcollected
      exact ⟨hdrawn.cons e, hgone⟩

theorem insertSession (hvouched : Vouched lib h a) {k : String} {s : SessionEntry}
    (hentered : Entered lib h k s.id s.deviceID) :
    Vouched lib h { a with sessions := a.sessions.insert k s } :=
  { hvouched with
    sessions := by
      intro k' s' hk
      obtain ⟨rfl, rfl⟩ | ⟨_, hk⟩ := GoMap.lookup_of_insert hk
      · exact hentered
      · exact hvouched.sessions k' s' hk }

theorem insertPending (hvouched : Vouched lib h a) {k : String} {p : PendingEntry}
    (hrequested : ∃ e ∈ h, Requests lib e k)
    (hgranted : p.granted = true → ∃ e₂ e₁, Approved lib h k p.deviceID e₂ e₁)
    (hnew : ∀ e ∈ h, ((calls lib).answer e).collects k ≠ true) :
    Vouched lib h { a with pending := a.pending.insert k p } :=
  { hvouched with
    requested := by
      intro k' p' hk
      obtain ⟨rfl, rfl⟩ | ⟨_, hk⟩ := GoMap.lookup_of_insert hk
      · exact hrequested
      · exact hvouched.requested k' p' hk
    granted := by
      intro k' p' hk
      obtain ⟨rfl, rfl⟩ | ⟨_, hk⟩ := GoMap.lookup_of_insert hk
      · exact hgranted
      · exact hvouched.granted k' p' hk
    collected := by
      intro e he request hcollects
      obtain ⟨hdrawn, hgone⟩ := hvouched.collected e he request hcollects
      have hne : request ≠ k := by
        rintro rfl
        exact hnew e he hcollects
      exact ⟨hdrawn, (AList.lookup_insert_ne hne).trans hgone⟩ }

/-- Nothing else of the service matters. -/
theorem congr (hvouched : Vouched lib h a) (hdevices : a'.state.devices = a.state.devices)
    (hsessions : a'.sessions = a.sessions) (hpending : a'.pending = a.pending) :
    Vouched lib h a' where
  devices := hdevices ▸ hvouched.devices
  sessions := hsessions ▸ hvouched.sessions
  requested := hpending ▸ hvouched.requested
  granted := hpending ▸ hvouched.granted
  collected := hpending ▸ hvouched.collected

/-- An event whose answer collects nothing. -/
theorem cons_other (hvouched : Vouched lib h a) {e : Config × Action}
    (hother : ∀ request, ((calls lib).answer e).collects request = false) :
    Vouched lib (e :: h) a :=
  hvouched.cons fun request hcollects => by
    rw [hother request] at hcollects
    cases hcollects

end Vouched

theorem plain_collects {o : Outcome} (hplain : o.plain = true) (request : String) :
    o.collects request = false := by
  cases o with
  | collected => cases hplain
  | _ => rfl

/-- What a call adds has its place in the history that ends with it. -/
theorem vouched_adds {e : Config × Action} {now : Nat} (hvouched : Vouched lib h a)
    (hknown : a.Known lib h) (hfresh : Fresh lib h e.2)
    (hadds : Adds lib now e.2 ((calls lib).answer e) a a') : Vouched lib (e :: h) a' := by
  generalize hx : e.2 = x at hadds hfresh
  generalize ho : (calls lib).answer e = o at hadds
  have hmem : e ∈ e :: h := List.mem_cons_self
  cases hadds with
  | passwordSet hset =>
    have hmore : Vouched lib (e :: h) a := hvouched.cons_other fun _ => by rw [ho]; rfl
    refine ⟨?_, ?_, ?_, ?_, ?_⟩
    · rw [hset.devices]
      exact hmore.devices
    · rw [hset.sessions]
      exact fun _ _ hk => nomatch hk
    · rw [hset.pending]
      exact fun _ _ hk => nomatch hk
    · rw [hset.pending]
      exact fun _ _ hk => nomatch hk
    · intro e' he request hcollects
      refine ⟨(hmore.collected e' he request hcollects).1, ?_⟩
      rw [hset.pending]
      rfl
  | signedIn hright _ _ _ =>
    have hmore : Vouched lib (e :: h) a := hvouched.cons_other fun _ => by rw [ho]; rfl
    exact hmore.insertSession (.inl ⟨e, hmem, _, _, _, _, hx, hright, ho, rfl⟩)
  | requested hright hid _ _ _ hopen =>
    have hmore : Vouched lib (e :: h) a := hvouched.cons_other fun _ => by rw [ho]; rfl
    refine hmore.insertPending ⟨e, hmem, _, _, _, _, _, hx, hright, ho⟩ ?_ ?_
    · intro hgranted
      rw [hopen] at hgranted
      cases hgranted
    · intro e' he hcollects
      obtain rfl | he := List.mem_cons.1 he
      · rw [ho] at hcollects
        cases hcollects
      · exact hfresh.not_drawn (Draws.mem_id hid) (hvouched.collected e' he _ hcollects).1
  | @collected _ _ _ key _ p d _ _ hp hgranted _ hdevice =>
    obtain ⟨hkey, hdrawn⟩ := hknown.pending key p hp
    have herased : Vouched lib h { a with pending := a.pending.erase p.id } :=
      hvouched.keeps (RemoteAuth.keeps_erasePending _)
    have hmore : Vouched lib (e :: h) { a with pending := a.pending.erase p.id } := by
      apply herased.cons
      intro request hcollects
      rw [ho] at hcollects
      obtain rfl : p.id = request := of_decide_eq_true hcollects
      exact ⟨hkey ▸ hdrawn, AList.lookup_erase _ _⟩
    obtain ⟨e₂, e₁, hsub, happroves, hrequests⟩ := hvouched.granted key p hp hgranted
    rw [← hkey] at happroves hrequests
    rw [← hdevice] at happroves
    exact hmore.insertSession (.inr ⟨p.id, e, e₂, e₁, hsub.cons_cons e,
      ⟨_, _, _, _, hx, ho, rfl⟩, happroves, hrequests⟩)
  | @approved _ _ request _ _ p d id expires hp _ _ hd =>
    have hmore : Vouched lib (e :: h) a := hvouched.cons_other fun _ => by rw [ho]; rfl
    obtain ⟨e₁, he₁, hrequests⟩ := hvouched.requested request p hp
    have happroved : Approved lib (e :: h) request id e e₁ :=
      ⟨(List.singleton_sublist.2 he₁).cons_cons e, ⟨_, _, _, hx, ho⟩, hrequests⟩
    have hpending := hmore.insertPending
      (p := { p with granted := true, deviceID := id, expires })
      ⟨e₁, List.mem_cons_of_mem e he₁, hrequests⟩ (fun _ => ⟨e, e₁, happroved⟩) (by
        intro e' he hcollects
        obtain rfl | he := List.mem_cons.1 he
        · rw [ho] at hcollects
          cases hcollects
        · have hgone := (hvouched.collected e' he _ hcollects).2
          rw [hp] at hgone
          cases hgone)
    refine { hpending with devices := ?_ }
    intro d' hd'
    obtain hold | hnew := List.mem_append.1 hd'
    · exact hmore.devices d' hold
    · rw [List.mem_singleton.1 hnew, hd]
      exact ⟨request, e, e₁, happroved⟩
  | rotated _ _ _ _ hanswer =>
    have hmore : Vouched lib (e :: h) a := hvouched.cons_other fun _ => by
      rw [ho]
      obtain rfl | ⟨_, rfl⟩ := hanswer <;> rfl
    exact hmore.congr rfl rfl rfl
  | _ =>
    have hmore : Vouched lib (e :: h) a := hvouched.cons_other fun _ => by rw [ho]; rfl
    exact hmore.congr rfl rfl rfl

theorem vouched_change {e : Config × Action} {now : Nat} (hvouched : Vouched lib h a)
    (hknown : a.Known lib h) (hfresh : Fresh lib h e.2)
    (hchange : Change lib now e.2 a ((calls lib).answer e) a') : Vouched lib (e :: h) a' := by
  cases hchange with
  | kept hplain hkeeps =>
    exact (hvouched.cons_other (plain_collects hplain)).keeps hkeeps
  | added hbefore hadds hafter =>
    exact (vouched_adds (hvouched.keeps hbefore) (hknown.keeps hbefore) hfresh hadds).keeps hafter

/-! ## Devices that are gone -/

/-- The ids of the devices. -/
def RemoteAuth.deviceIDs (a : RemoteAuth) : List String := a.state.devices.map (·.id)

theorem Keeps.deviceIDs (hkeeps : Keeps a a') : a'.deviceIDs.Sublist a.deviceIDs := by
  have hsub := hkeeps.devices.map DeviceRecord.id
  rw [List.map_map, List.map_map] at hsub
  exact hsub

/-- The devices left by a call, and the one it may add. -/
theorem deviceIDs_of_change {now : Nat} {x : Action} {o : Outcome}
    (hchange : Change lib now x a o a') :
    a'.deviceIDs.Sublist a.deviceIDs ∨
      ∃ id, x.draws.id = .ok id ∧ a'.deviceIDs.Sublist (a.deviceIDs ++ [id]) := by
  cases hchange with
  | kept _ hkeeps => exact .inl hkeeps.deviceIDs
  | @added mid mid' hbefore hadds hafter =>
    cases hadds with
    | passwordSet hset =>
      have hsame : mid'.deviceIDs = mid.deviceIDs := by
        rw [RemoteAuth.deviceIDs, RemoteAuth.deviceIDs, hset.devices]
      exact .inl (hafter.deviceIDs.trans (hsame ▸ hbefore.deviceIDs))
    | @approved _ _ _ _ _ _ d id _ _ _ hid hd =>
      refine .inr ⟨id, hid, hafter.deviceIDs.trans ?_⟩
      have happend : (mid.state.devices ++ [d]).map (·.id) = mid.deviceIDs ++ [id] := by
        rw [List.map_append, List.map_singleton, hd]
        rfl
      rw [RemoteAuth.deviceIDs, happend]
      exact hbefore.deviceIDs.append_right [id]
    | _ => exact .inl (hafter.deviceIDs.trans hbefore.deviceIDs)

theorem deviceIDs_removeDevice {save : Option String} {id : String} {ids : List String}
    (hanswer : (a.removeDevice save id).1 = .revoked ids) :
    id ∈ a.deviceIDs ∧ id ∉ (a.removeDevice save id).2.deviceIDs := by
  unfold RemoteAuth.removeDevice at hanswer ⊢
  cases hfound : a.deviceLocked id with
  | none =>
    rw [hfound] at hanswer
    cases hanswer
  | some d =>
    obtain ⟨hd, hid⟩ := RemoteAuth.mem_of_device hfound
    rw [hfound] at hanswer
    cases save with
    | some err => cases hanswer
    | none =>
      refine ⟨List.mem_map.2 ⟨d, hd, hid⟩, ?_⟩
      intro hleft
      obtain ⟨d', hd', hid'⟩ := List.mem_map.1 hleft
      exact of_decide_eq_true (List.mem_filter.1 hd').2 hid'

theorem devices_forgetHost {save : Option String} {host : String} {ids : List String}
    (hanswer : (a.forgetHost lib save host).1 = .revoked ids) (hhost : lib.toLower host ≠ "")
    {d : DeviceRecord} (hd : d ∈ (a.forgetHost lib save host).2.state.devices) :
    d ∈ a.state.devices ∧ d.host ≠ lib.toLower host := by
  unfold RemoteAuth.forgetHost at hanswer hd
  dsimp only at hanswer hd
  rw [if_neg hhost] at hanswer hd
  split_ifs at hanswer hd with hnone
  · refine ⟨hd, fun hsame => ?_⟩
    rw [List.map_eq_nil_iff, List.filter_eq_nil_iff] at hnone
    exact hnone d hd (decide_eq_true hsame)
  · cases save with
    | some err => cases hanswer
    | none =>
      obtain ⟨hmem, hne⟩ := List.mem_filter.1 hd
      exact ⟨hmem, of_decide_eq_true hne⟩

/-- The devices that were removed are gone. -/
structure Removed (lib : Platform) (h : History) (a : RemoteAuth) : Prop where
  nodup : a.deviceIDs.Nodup
  gone : ∀ e ∈ h, ∀ id, Removes lib e id → Drawn lib h id ∧ id ∉ a.deviceIDs

theorem Removed.empty : Removed lib [] {} where
  nodup := List.nodup_nil
  gone _ he := by cases he

/-- A device that is removed was there, and is not any more. -/
theorem gone_of_removes {x : Action} {id : String} (hnodup : c.auth.deviceIDs.Nodup)
    (hremoves : Removes lib (c, x) id) :
    id ∈ c.auth.deviceIDs ∧ id ∉ (x.act lib c).2.auth.deviceIDs := by
  obtain ⟨save, ids, hx, hanswer⟩ | ⟨save, host, ids, hx, hanswer, hhost, d, hd, rfl, hsame⟩ :=
    hremoves
  · obtain rfl : x = .removeDevice save id := hx
    exact deviceIDs_removeDevice hanswer
  · obtain rfl : x = .forgetHost save host := hx
    refine ⟨List.mem_map_of_mem hd, fun hleft => ?_⟩
    obtain ⟨d', hd', hid⟩ := List.mem_map.1 hleft
    obtain ⟨hmem, hne⟩ := devices_forgetHost hanswer hhost hd'
    obtain rfl := List.inj_on_of_nodup_map hnodup hmem hd hid
    exact hne hsame

theorem removed_act {x : Action} (hremoved : Removed lib h c.auth) (hknown : c.auth.Known lib h)
    (hfresh : Fresh lib h x) : Removed lib ((c, x) :: h) (x.act lib c).2.auth := by
  have hdrawn : ∀ id ∈ c.auth.deviceIDs, Drawn lib h id := by
    intro id hid
    obtain ⟨d, hd, rfl⟩ := List.mem_map.1 hid
    exact hknown.devices d hd
  have hids := deviceIDs_of_change (@change_act lib x c)
  refine ⟨?_, ?_⟩
  · obtain hsub | ⟨id, hid, hsub⟩ := hids
    · exact hremoved.nodup.sublist hsub
    · refine (List.Nodup.append hremoved.nodup (List.nodup_singleton id) ?_).sublist hsub
      rw [List.disjoint_singleton]
      exact fun hmem => hfresh.not_drawn (Draws.mem_id hid) (hdrawn id hmem)
  · intro e he id hremoves
    obtain rfl | hmem := List.mem_cons.1 he
    · obtain ⟨hwas, hgone⟩ := gone_of_removes hremoved.nodup hremoves
      exact ⟨(hdrawn id hwas).cons _, hgone⟩
    · obtain ⟨hold, hgone⟩ := hremoved.gone e hmem id hremoves
      refine ⟨hold.cons _, fun hback => ?_⟩
      obtain hsub | ⟨new, hnew, hsub⟩ := hids
      · exact hgone (hsub.subset hback)
      · obtain hback | hback := List.mem_append.1 (hsub.subset hback)
        · exact hgone hback
        · rw [List.mem_singleton.1 hback] at hold
          exact hfresh.not_drawn (Draws.mem_id hnew) hold

/-! ## Every run -/

theorem pending_of_collects {now : Nat} {x : Action} {o : Outcome} {request : String}
    (hknown : a.Known lib h) (hchange : Change lib now x a o a')
    (hcollects : o.collects request = true) : ∃ p, a.pending.lookup request = some p := by
  cases hchange with
  | kept hplain =>
    rw [plain_collects hplain] at hcollects
    cases hcollects
  | added hbefore hadds hafter =>
    cases hadds with
    | collected hp =>
      obtain rfl := of_decide_eq_true hcollects
      obtain ⟨p, hpending, rfl⟩ := hbefore.pending _ _ hp
      rw [(hknown.pending _ _ hpending).1]
      exact ⟨p, hpending⟩
    | rotated _ _ _ _ ho => obtain rfl | ⟨_, rfl⟩ := ho <;> cases hcollects
    | _ => cases hcollects

theorem drawn_of_approves {x : Action} {device : String}
    (happroves : (x.act lib c).1.approves device = true) : device ∈ x.draws.drawn lib := by
  have hchange : Change lib c.now x c.auth (x.act lib c).1 (x.act lib c).2.auth := change_act x c
  generalize (x.act lib c).1 = o at hchange happroves
  cases hchange with
  | kept hplain =>
    cases o with
    | approved => cases hplain
    | _ => cases happroves
  | added hbefore hadds hafter =>
    cases hadds with
    | approved _ _ hid =>
      obtain rfl := of_decide_eq_true happroves
      exact Draws.mem_id hid
    | rotated _ _ _ _ ho => obtain rfl | ⟨_, rfl⟩ := ho <;> cases happroves
    | _ => cases happroves

/-- What a run keeps. -/
theorem vouched_of_run (hrun : Labelled.Run (calls lib) (fun h _ x => Fresh lib h x) {} h c) :
    Vouched lib h c.auth ∧ Removed lib h c.auth := by
  refine hrun.invariant (P := fun h c => Vouched lib h c.auth ∧ Removed lib h c.auth)
    ⟨.empty, .empty⟩ ?_
  intro h c x hrun ⟨hvouched, hremoved⟩ _ hfresh
  have hknown := (known_of_run hrun).auth
  have hchange : Change lib c.now (c, x).2 c.auth ((calls lib).answer (c, x))
      (x.act lib c).2.auth := change_act x c
  exact ⟨vouched_change hvouched hknown hfresh hchange, removed_act hremoved hknown hfresh⟩

/-- A request is collected once at most. -/
theorem collects_once (hrun : Labelled.Run (calls lib) (fun h _ x => Fresh lib h x) {} h c)
    (request : String) :
    (h.filter fun e => ((calls lib).answer e).collects request).length ≤ 1 := by
  refine hrun.invariant (P := fun h _ =>
    (h.filter fun e => ((calls lib).answer e).collects request).length ≤ 1) (Nat.zero_le 1) ?_
  intro h c x hrun honce _ _
  apply Labelled.once_cons _ honce
  intro hcollects e he hbefore
  have hchange : Change lib c.now x c.auth ((calls lib).answer (c, x)) (x.act lib c).2.auth :=
    change_act x c
  obtain ⟨p, hp⟩ := pending_of_collects (known_of_run hrun).auth hchange hcollects
  rw [((vouched_of_run hrun).1.collected e he request hbefore).2] at hp
  cases hp

/-- A session that is let in is one of a device that is approved now: it was added by the one
approval of a request made with the right password, and never removed. The session was opened with
the right password or by collecting that approval, and no approval is collected twice. -/
theorem session_twoFactor
    (hrun : Labelled.Run (calls lib) (fun h _ x => Fresh lib h x) {} h c) :
    (∀ token id name, (c.auth.authorize lib c.now token).1 = .session id name →
      ∃ d ∈ c.auth.state.devices, d.name = name ∧
        (∃ request e₂ e₁, Approved lib h request d.id e₂ e₁) ∧
        (h.filter fun e => ((calls lib).answer e).approves d.id).length = 1 ∧
        Entered lib h (lib.tokenHash token) id d.id ∧ ∀ e ∈ h, ¬ Removes lib e d.id) ∧
      ∀ request, (h.filter fun e => ((calls lib).answer e).collects request).length ≤ 1 := by
  obtain ⟨hvouched, hremoved⟩ := vouched_of_run hrun
  refine ⟨fun token id name haccepted => ?_, collects_once hrun⟩
  obtain ⟨s, hs, rfl, d, hd, hdevice, hname⟩ := accepted_of_authorize haccepted
  obtain ⟨request, e₂, e₁, happroved⟩ := hvouched.devices d hd
  refine ⟨d, hd, hname, ⟨request, e₂, e₁, happroved⟩, ?_, ?_, ?_⟩
  · apply Nat.le_antisymm (once_of_drawn hrun fun _ _ => drawn_of_approves)
    apply List.length_pos_of_mem (a := e₂)
    obtain ⟨hsub, ⟨_, _, _, _, hanswer⟩, _⟩ := happroved
    refine List.mem_filter.2 ⟨hsub.subset List.mem_cons_self, ?_⟩
    rw [hanswer]
    exact decide_eq_true rfl
  · rw [hdevice]
    exact hvouched.sessions _ s hs
  · intro e he hremoves
    exact (hremoved.gone e he d.id hremoves).2 (List.mem_map_of_mem hd)

section

/-- A phone signs in, is approved, and collects the approval. -/
private def phone : List Action :=
  [.loginWait { id := .ok "session000000001", token := .ok "session" } none "device",
    .approveDevice { id := .ok "device0000000001" } none "request000000001" "phone",
    .loginChecked { id := .ok "request000000001", token := .ok "device", code := .ok "1234" } none
      ⟨"", "hash of correct horse battery", "correct horse battery", "", "", "phone"⟩,
    .login ⟨"application/json", some "correct horse battery", "", "", "phone"⟩,
    .setPassword (.ok "hash of correct horse battery") none none "correct horse battery"]

theorem session_twoFactor_phone :
    let run := (calls samplePlatform).play {} phone
    ∃ d ∈ run.2.auth.state.devices, d.name = "phone" ∧
      (∃ request e₂ e₁, Approved samplePlatform run.1 request d.id e₂ e₁) ∧
      (run.1.filter fun e => ((calls samplePlatform).answer e).approves d.id).length = 1 ∧
      Entered samplePlatform run.1 "hash of session" "session000000001" d.id ∧
      ∀ e ∈ run.1, ¬ Removes samplePlatform e d.id := by
  have hplayable : (calls samplePlatform).Playable (fun h _ x => Fresh samplePlatform h x) {}
      phone := by decide
  exact (session_twoFactor hplayable.run).1 "session" "session000000001" "phone" (by decide)

end

end Konnekt.Remote
