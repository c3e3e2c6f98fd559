import Konnekt.Remote.Changes

/-!
# Names that were drawn

Every id, and every token by its hash, that the service holds was drawn by a call of
the history. A call whose draws are fresh therefore adds under names nothing has yet.
-/

namespace Konnekt.Remote

open Go

variable {lib : Platform} {h : History} {a a' : RemoteAuth} {c : Config}

/-! ## Draws -/

/-- A name is one that some call of a history drew. -/
def Drawn (lib : Platform) (h : History) (name : String) : Prop :=
  ∃ e ∈ h, name ∈ e.2.draws.drawn lib

theorem Drawn.cons {name : String} (hname : Drawn lib h name) (e : Config × Action) :
    Drawn lib (e :: h) name := by
  obtain ⟨e', he', hdrawn⟩ := hname
  exact ⟨e', List.mem_cons_of_mem e he', hdrawn⟩

theorem drawn_head {e : Config × Action} {name : String} (hname : name ∈ e.2.draws.drawn lib) :
    Drawn lib (e :: h) name :=
  ⟨e, List.mem_cons_self, hname⟩

theorem Draws.mem_id {d : Draws} {id : String} (hid : d.id = .ok id) : id ∈ d.drawn lib := by
  simp [drawn, hid, Except.toOption]

theorem Draws.mem_token {d : Draws} {token : String} (htoken : d.token = .ok token) :
    lib.tokenHash token ∈ d.drawn lib := by
  simp [drawn, htoken, Except.toOption]

theorem Draws.mem_refresh {d : Draws} {token : String} (htoken : d.refresh = .ok token) :
    lib.tokenHash token ∈ d.drawn lib := by
  simp [drawn, htoken, Except.toOption]

theorem Fresh.not_drawn {x : Action} (hfresh : Fresh lib h x) {name : String}
    (hname : name ∈ x.draws.drawn lib) : ¬ Drawn lib h name := by
  rintro ⟨e, he, hdrawn⟩
  exact hfresh.new name hname e he hdrawn

theorem Fresh.ne {x : Action} (hfresh : Fresh lib h x) {name other : String}
    (hname : name ∈ x.draws.drawn lib) (hother : Drawn lib h other) : other ≠ name := by
  rintro rfl
  exact hfresh.not_drawn hname hother

/-! ## What the service holds -/

/-- The names of a grant. -/
structure GrantRecord.Known (lib : Platform) (h : History) (g : GrantRecord) : Prop where
  id : Drawn lib h g.id
  access : Drawn lib h g.accessHash
  refresh : Drawn lib h g.refreshHash

/-- Everything the service holds goes by a name that was drawn, and a request or a consent by
its own id. -/
structure RemoteAuth.Known (lib : Platform) (h : History) (a : RemoteAuth) : Prop where
  sessions : ∀ k s, a.sessions.lookup k = some s → Drawn lib h k ∧ Drawn lib h s.id
  pending : ∀ k p, a.pending.lookup k = some p → p.id = k ∧ Drawn lib h k
  consents : ∀ k v, a.consents.lookup k = some v → v.id = k ∧ Drawn lib h k
  codes : ∀ k v, a.codes.lookup k = some v → Drawn lib h k
  devices : ∀ d ∈ a.state.devices, Drawn lib h d.id
  grants : ∀ g ∈ a.state.grants ++ a.saved.grants, g.Known lib h

theorem GrantRecord.Known.cons {g : GrantRecord} (hg : g.Known lib h) (e : Config × Action) :
    g.Known lib (e :: h) :=
  ⟨hg.id.cons e, hg.access.cons e, hg.refresh.cons e⟩

theorem GrantRecord.Known.congr {g g' : GrantRecord} (hg : g.Known lib h)
    (hcore : g'.core = g.core) : g'.Known lib h := by
  obtain ⟨_, rfl⟩ := GrantRecord.of_core hcore
  exact ⟨hg.id, hg.access, hg.refresh⟩

namespace RemoteAuth.Known

theorem empty : ({} : RemoteAuth).Known lib [] where
  sessions _ _ hk := by cases hk
  pending _ _ hk := by cases hk
  consents _ _ hk := by cases hk
  codes _ _ hk := by cases hk
  devices _ hd := by cases hd
  grants _ hg := by cases hg

theorem cons (hknown : a.Known lib h) (e : Config × Action) : a.Known lib (e :: h) where
  sessions k s hk := ⟨(hknown.sessions k s hk).1.cons e, (hknown.sessions k s hk).2.cons e⟩
  pending k p hk := ⟨(hknown.pending k p hk).1, (hknown.pending k p hk).2.cons e⟩
  consents k v hk := ⟨(hknown.consents k v hk).1, (hknown.consents k v hk).2.cons e⟩
  codes k v hk := (hknown.codes k v hk).cons e
  devices d hd := (hknown.devices d hd).cons e
  grants g hg := (hknown.grants g hg).cons e

theorem keeps (hknown : a.Known lib h) (hkeeps : Keeps a a') : a'.Known lib h where
  sessions k s' hk := by
    obtain ⟨s, hs, _, rfl⟩ := hkeeps.sessions k s' hk
    exact hknown.sessions k s hs
  pending k p hk := by
    obtain ⟨_, hp, rfl⟩ := hkeeps.pending k p hk
    exact hknown.pending k _ hp
  consents k v' hk := by
    obtain ⟨v, hv, ⟨_, _, rfl⟩, _⟩ := hkeeps.consents k v' hk
    exact hknown.consents k v hv
  codes k v hk := by
    obtain ⟨_, hv, rfl⟩ := hkeeps.codes k v hk
    exact hknown.codes k _ hv
  devices d' hd := by
    obtain ⟨d, hmem, hcore⟩ := hkeeps.mem_devices hd
    obtain ⟨_, rfl⟩ := DeviceRecord.of_core hcore
    exact hknown.devices d hmem
  grants g' hg := by
    obtain hmem | hmem := List.mem_append.1 hg
    · obtain ⟨g, hg, hcore⟩ := hkeeps.mem_grants hmem
      exact (hknown.grants g (List.mem_append_left _ hg)).congr hcore
    · obtain ⟨g, hg, hcore⟩ := hkeeps.saved g' hmem
      exact (hknown.grants g hg).congr hcore

theorem insertSession (hknown : a.Known lib h) {token id device : String} {now : Nat}
    (htoken : Drawn lib h (lib.tokenHash token)) (hid : Drawn lib h id) :
    (a.addSession lib now token id device).Known lib h :=
  { hknown with
    sessions := by
      intro k s hk
      obtain ⟨rfl, rfl⟩ | ⟨_, hk⟩ := GoMap.lookup_of_insert hk
      · exact ⟨htoken, hid⟩
      · exact hknown.sessions k s hk }

theorem insertPending (hknown : a.Known lib h) {p : PendingEntry} {k : String} (hid : p.id = k)
    (hk : Drawn lib h k) : { a with pending := a.pending.insert k p }.Known lib h :=
  { hknown with
    pending := by
      intro k' p' hk'
      obtain ⟨rfl, rfl⟩ | ⟨_, hk'⟩ := GoMap.lookup_of_insert hk'
      · exact ⟨hid, hk⟩
      · exact hknown.pending k' p' hk' }

theorem insertConsent (hknown : a.Known lib h) {v : Consent} {k : String} (hid : v.id = k)
    (hk : Drawn lib h k) : { a with consents := a.consents.insert k v }.Known lib h :=
  { hknown with
    consents := by
      intro k' v' hk'
      obtain ⟨rfl, rfl⟩ | ⟨_, hk'⟩ := GoMap.lookup_of_insert hk'
      · exact ⟨hid, hk⟩
      · exact hknown.consents k' v' hk' }

theorem insertCode (hknown : a.Known lib h) {v : AuthCode} {k : String} (hk : Drawn lib h k) :
    { a with codes := a.codes.insert k v }.Known lib h :=
  { hknown with
    codes := by
      intro k' v' hk'
      obtain ⟨rfl, rfl⟩ | ⟨_, hk'⟩ := GoMap.lookup_of_insert hk'
      · exact hk
      · exact hknown.codes k' v' hk' }

theorem setGrant (hknown : a.Known lib h) {g : GrantRecord} (i : Nat) (hg : g.Known lib h) :
    (a.setGrant i g).Known lib h :=
  { hknown with
    grants := by
      intro g' hg'
      obtain hmem | hmem := List.mem_append.1 hg'
      · obtain hmem | rfl := List.mem_or_eq_of_mem_set hmem
        · exact hknown.grants g' (List.mem_append_left _ hmem)
        · exact hg
      · exact hknown.grants g' (List.mem_append_right _ hmem) }

/-- What a call adds goes by the names it drew. -/
theorem adds (hknown : a.Known lib h) {now : Nat} {x : Action} {o : Outcome}
    (hdrawn : ∀ name ∈ x.draws.drawn lib, Drawn lib h name) (hadds : Adds lib now x o a a') :
    a'.Known lib h := by
  cases hadds with
  | passwordSet hset =>
    refine ⟨?_, ?_, ?_, ?_, ?_, ?_⟩
    · rw [hset.sessions]
      exact fun _ _ hk => nomatch hk
    · rw [hset.pending]
      exact fun _ _ hk => nomatch hk
    · rw [hset.consents]
      exact fun _ _ hk => nomatch hk
    · rw [hset.codes]
      exact fun _ _ hk => nomatch hk
    · rw [hset.devices]
      exact hknown.devices
    · intro g hg
      rw [hset.grants, List.nil_append] at hg
      obtain hnil | ⟨_, hsame⟩ := hset.saved
      · rw [hnil] at hg
        cases hg
      · rw [hsame] at hg
        exact hknown.grants g (List.mem_append_left _ hg)
  | signedIn _ _ htoken hid =>
    exact hknown.insertSession (hdrawn _ (Draws.mem_token htoken)) (hdrawn _ (Draws.mem_id hid))
  | requested _ hid _ hp => exact hknown.insertPending hp (hdrawn _ (Draws.mem_id hid))
  | collected _ _ _ _ htoken hid =>
    exact (hknown.keeps (RemoteAuth.keeps_erasePending _)).insertSession
      (hdrawn _ (Draws.mem_token htoken)) (hdrawn _ (Draws.mem_id hid))
  | @approved _ _ request _ _ p d id expires hp _ hid hd =>
    obtain ⟨hpid, hkey⟩ := hknown.pending _ _ hp
    have hpending := hknown.insertPending
      (p := { p with granted := true, deviceID := id, expires }) hpid hkey
    refine { hpending with devices := ?_ }
    intro d hmem
    obtain hmem | hmem := List.mem_append.1 hmem
    · exact hknown.devices d hmem
    · rw [List.mem_singleton.1 hmem, hd]
      exact hdrawn _ (Draws.mem_id hid)
  | consentPage _ _ hid => exact hknown.insertConsent rfl (hdrawn _ (Draws.mem_id hid))
  | asked hc => exact hknown.insertConsent (hknown.consents _ _ hc).1 (hknown.consents _ _ hc).2
  | decided hc _ hcode =>
    exact (hknown.insertCode (hdrawn _ (Draws.mem_token hcode))).insertConsent
      (hknown.consents _ _ hc).1 (hknown.consents _ _ hc).2
  | issued _ _ _ hid htokens =>
    refine { hknown.keeps (.of_codes (GoMap.within_erase (fun _ => rfl) _)) with grants := ?_ }
    intro g hg
    obtain hmem | hmem := List.mem_append.1 hg
    · obtain hmem | hmem := List.mem_append.1 hmem
      · exact hknown.grants g (List.mem_append_left _ hmem)
      · rw [List.mem_singleton.1 hmem]
        exact ⟨hdrawn _ (Draws.mem_id hid), hdrawn _ (Draws.mem_token htokens.access),
          hdrawn _ (Draws.mem_refresh htokens.refresh)⟩
    · exact hknown.grants g (List.mem_append_right _ hmem)
  | renewed hg haccess =>
    have hknown' := hknown.grants _ (List.mem_append_left _ (List.mem_of_getElem? hg))
    exact hknown.setGrant _ ⟨hknown'.id, hdrawn _ (Draws.mem_token haccess), hknown'.refresh⟩
  | rotated hg _ _ htokens =>
    have hknown' := hknown.grants _ (List.mem_append_left _ (List.mem_of_getElem? hg))
    exact hknown.setGrant _ ⟨hknown'.id, hdrawn _ (Draws.mem_token htokens.access),
      hdrawn _ (Draws.mem_refresh htokens.refresh)⟩

theorem change (hknown : a.Known lib h) {now : Nat} {x : Action} {o : Outcome}
    (hdrawn : ∀ name ∈ x.draws.drawn lib, Drawn lib h name) (hchange : Change lib now x a o a') :
    a'.Known lib h := by
  cases hchange with
  | kept _ hkeeps => exact hknown.keeps hkeeps
  | added hbefore hadds hafter => exact ((hknown.keeps hbefore).adds hdrawn hadds).keeps hafter

end RemoteAuth.Known

/-! ## What is in flight -/

/-- The names the checks in flight and the desktop's questions are about were drawn. -/
structure Config.Known (lib : Platform) (h : History) (c : Config) : Prop where
  auth : c.auth.Known lib h
  checks : ∀ f, .consent f ∈ c.checks → Drawn lib h f.request
  asks : ∀ id ∈ c.asks, Drawn lib h id

theorem mem_checks_begin {c : Config} {r : Except Outcome Check × RemoteAuth} {check : Check}
    (hcheck : check ∈ (c.begin r).2.checks) : check ∈ c.checks ∨ r.1 = .ok check := by
  unfold Config.begin at hcheck
  split at hcheck
  · next begun hbegun =>
    obtain rfl | hmem := List.mem_cons.1 hcheck
    · exact .inr hbegun
    · exact .inl hmem
  · exact .inl hcheck

theorem asks_begin (c : Config) (r : Except Outcome Check × RemoteAuth) :
    (c.begin r).2.asks = c.asks := by
  unfold Config.begin
  split <;> rfl

theorem map_eq_ok {α β ε : Type} {f : α → β} {r : Except ε α} {v : β} (h : r.map f = .ok v) :
    ∃ u, f u = v ∧ r = .ok u := by
  cases r with
  | error e => cases h
  | ok u =>
    cases h
    exact ⟨u, rfl, rfl⟩

/-- A check in flight after a call was in flight before it, or begins with it. -/
theorem mem_checks_act {x : Action} {check : Check} (hcheck : check ∈ (x.act lib c).2.checks) :
    check ∈ c.checks ∨
      (∃ r, x = .login r ∧ ∃ f, .signIn f = check ∧ (c.auth.serveLogin lib c.now r).1 = .ok f) ∨
      ∃ r, x = .consent r ∧ ∃ f, .consent f = check ∧
        (c.auth.serveConsent lib c.now r).1 = .ok f := by
  cases x with
  | login r =>
    obtain hmem | hbegun := mem_checks_begin hcheck
    · exact .inl hmem
    · exact .inr (.inl ⟨r, rfl, map_eq_ok hbegun⟩)
  | consent r =>
    obtain hmem | hbegun := mem_checks_begin hcheck
    · exact .inl hmem
    · exact .inr (.inr ⟨r, rfl, map_eq_ok hbegun⟩)
  | loginChecked => exact .inl (List.mem_of_mem_erase hcheck)
  | consentChecked => exact .inl (List.mem_of_mem_erase hcheck)
  | _ => exact .inl hcheck

theorem mem_asks_finish {check : Check} {r : Outcome × RemoteAuth} {id : String}
    (hid : id ∈ (c.finish check r).2.asks) : id ∈ c.asks ∨ r.1 = .asked id := by
  unfold Config.finish at hid
  dsimp only at hid
  split at hid
  · next asked hasked =>
    obtain rfl | hmem := List.mem_cons.1 hid
    · exact .inr hasked
    · exact .inl hmem
  · exact .inl hid

/-- The desktop is asked by the end of a check alone. -/
theorem mem_asks_act {x : Action} {id : String} (hid : id ∈ (x.act lib c).2.asks) :
    id ∈ c.asks ∨ (x.act lib c).1 = .asked id := by
  cases x with
  | login => exact .inl (asks_begin c _ ▸ hid)
  | consent => exact .inl (asks_begin c _ ▸ hid)
  | loginChecked => exact mem_asks_finish hid
  | consentChecked => exact mem_asks_finish hid
  | _ => exact .inl hid

/-- Only a right password of a consent page asks the desktop, of that page. -/
theorem asked_of_change {now : Nat} {x : Action} {id : String}
    (hchange : Change lib now x a (.asked id) a') :
    ∃ f, x = .consentChecked f ∧ f.request = id ∧ (Check.consent f).right lib = true := by
  cases hchange with
  | kept hplain => cases hplain
  | added hbefore hadds hafter =>
    cases hadds with
    | @asked f _ _ hc hnew hright => exact ⟨f, rfl, rfl, hright⟩
    | rotated _ _ _ _ ho => obtain ho | ⟨_, ho⟩ := ho <;> cases ho

/-- Every name the service holds was drawn, throughout a run. -/
theorem known_of_run {allowed : History → Config → Action → Prop}
    (hrun : Labelled.Run (calls lib) allowed {} h c) : c.Known lib h := by
  refine hrun.invariant ⟨.empty, nofun, nofun⟩ ?_
  intro h c x _ hknown henabled _
  have hmore : c.auth.Known lib ((c, x) :: h) := hknown.auth.cons _
  refine ⟨hmore.change (fun _ => drawn_head) (change_act x c), ?_, ?_⟩
  · intro f hf
    obtain hmem | ⟨_, _, _, hsign, _⟩ | ⟨r, rfl, f', hcheck, hbegun⟩ := mem_checks_act hf
    · exact (hknown.checks f hmem).cons _
    · cases hsign
    · cases hcheck
      obtain ⟨_, ho, _⟩ | ⟨f', v, hf', _, hrequest, hv, _⟩ :=
        @RemoteAuth.serveConsent_cases c.auth lib c.now r
      · cases ho.symm.trans hbegun
      · cases hf'.symm.trans hbegun
        rw [hrequest]
        exact (hmore.consents _ _ hv).2
  · intro id hid
    obtain hmem | hasked := mem_asks_act hid
    · exact (hknown.asks id hmem).cons _
    · have hchange : Change lib c.now x c.auth (x.act lib c).1 (x.act lib c).2.auth :=
        change_act x c
      rw [hasked] at hchange
      obtain ⟨f, rfl, rfl, _⟩ := asked_of_change hchange
      exact (hknown.checks f (henabled.1 _ rfl)).cons _

/-- Nothing that was drawn is empty. -/
theorem drawn_ne_empty {allowed : History → Config → Action → Prop}
    (hrun : Labelled.Run (calls lib) allowed {} h c) (hle : ∀ h c x, allowed h c x → Fresh lib h x)
    {name : String} (hname : Drawn lib h name) : name ≠ "" := by
  obtain ⟨e, he, hdrawn⟩ := hname
  obtain ⟨newer, older, rfl⟩ := List.append_of_mem he
  obtain ⟨_, _, hallowed⟩ := hrun.before
  exact (hle _ _ _ hallowed).token name hdrawn

/-- What happens under a name its call drew happens once. -/
theorem once_of_drawn {p : Config × Action → Bool} {name : String}
    (hrun : Labelled.Run (calls lib) (fun h _ x => Fresh lib h x) {} h c)
    (hp : ∀ c x, p (c, x) = true → name ∈ x.draws.drawn lib) : (h.filter p).length ≤ 1 := by
  refine hrun.invariant (P := fun h _ => (h.filter p).length ≤ 1) (Nat.zero_le 1) ?_
  intro h c x _ honce _ hfresh
  apply Labelled.once_cons _ honce
  intro hnow e he hbefore
  exact hfresh.not_drawn (hp c x hnow) ⟨e, he, hp e.1 e.2 hbefore⟩

/-- A platform for runs on fixed inputs. -/
def samplePlatform : Platform where
  tokenHash token := "hash of " ++ token
  verify password encoded := encoded = "hash of " ++ password
  challengeOf verifier := verifier
  isPrint c := 32 ≤ c.toNat
  toLower s := s
  equalFold s t := s = t
  parseURL _ := none

def sampleChallenge : String := "E9Melhoa2OwvFrEMTJguCHaoeK1t8URWbuGJSstw-cM"

/-- A connector signs in and gets its first tokens, the last call first. -/
def sampleConnector : List Action :=
  [.exchange { id := .ok "grant00000000001", token := .ok "access 1", refresh := .ok "refresh 1" }
      none ⟨"code", sampleChallenge, "claude", remoteClaudeRedirect, ""⟩,
    .decide { token := .ok "code" } "consent000000001" none,
    .consentChecked ⟨"consent000000001", "csrf", "hash of correct horse battery",
      "correct horse battery", [remoteScopeRead]⟩,
    .consent ⟨"application/x-www-form-urlencoded", true, "consent000000001", "csrf", false,
      [remoteScopeRead], "correct horse battery", "konnekt.example"⟩,
    .authorizeClient { id := .ok "consent000000001", token := .ok "csrf" }
      ⟨"claude", [⟨"claude", "Claude", [remoteClaudeRedirect], 0, 0⟩], .error errCIMDURL,
        remoteClaudeRedirect, "state", "code", sampleChallenge, "S256", "", remoteScopeRead,
        "konnekt.example"⟩,
    .setPassword (.ok "hash of correct horse battery") none none "correct horse battery"]

end Konnekt.Remote
