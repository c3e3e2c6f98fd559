import Konnekt.Remote.Consents

/-!
# Where a connector's grant comes from

Every grant goes back, through one code, to one consent page: the password was typed
there, the desktop was asked and said yes, and the client that started it exchanged the
code in time. It is for what was both asked for and ticked.
-/

namespace Konnekt.Remote

open Go List

variable {lib : Platform} {h : History} {c : Config}

/-! ## Scopes -/

/-- A scope is among some, or is the reading that operating includes. -/
def WithRead (scopes : List String) (s : String) : Prop :=
  s ∈ scopes ∨ s = remoteScopeRead ∧ remoteScopeOperate ∈ scopes

/-- The scopes an authorize request names. -/
def AuthorizeRequest.requested (r : AuthorizeRequest) : List String :=
  if fields r.scope = [] then [remoteScopeRead] else fields r.scope

theorem mem_knownScopes {out scopes known : List String} {s : String}
    (hknown : knownScopes out scopes = some known) (hs : s ∈ known) : s ∈ out ∨ s ∈ scopes := by
  induction scopes generalizing out with
  | nil =>
    cases hknown
    exact .inl hs
  | cons t scopes ih =>
    rw [knownScopes] at hknown
    split_ifs at hknown
    · exact (ih hknown).imp_right (mem_cons_of_mem t)
    · obtain hout | hrest := ih hknown
      · obtain hout | htop := mem_append.1 hout
        · exact .inl hout
        · exact .inr (mem_singleton.1 htop ▸ mem_cons_self)
      · exact .inr (mem_cons_of_mem t hrest)

/-- Normalizing adds nothing but the reading that operating includes. -/
theorem withRead_of_normalize {scopes : List String} {s : String}
    (hs : s ∈ normalizeRemoteScopes scopes) : WithRead scopes s := by
  unfold normalizeRemoteScopes at hs
  cases hknown : knownScopes [] scopes with
  | none =>
    rw [hknown] at hs
    cases hs
  | some known =>
    rw [hknown] at hs
    have hmem : ∀ t ∈ known, t ∈ scopes :=
      fun t ht => (mem_knownScopes hknown ht).resolve_left not_mem_nil
    dsimp only at hs
    rw [mem_insertionSort] at hs
    split_ifs at hs with hread
    · obtain hs | hs := mem_append.1 hs
      · exact .inl (hmem s hs)
      · exact .inr ⟨mem_singleton.1 hs, hmem _ hread.1⟩
    · exact .inl (hmem s hs)

theorem withRead_trans {scopes more : List String} {s : String} (hs : WithRead scopes s)
    (hmore : ∀ t ∈ scopes, WithRead more t) : WithRead more s := by
  obtain hs | ⟨rfl, hoperate⟩ := hs
  · exact hmore s hs
  · obtain hoperate | ⟨hread, _⟩ := hmore _ hoperate
    · exact .inr ⟨rfl, hoperate⟩
    · exact absurd hread (by decide)

/-- A page grants what is ticked of what was asked for. -/
theorem withRead_of_ticked {v : Consent} {ticked : List String} {s : String}
    (hs : s ∈ RemoteAuth.tickedScopes v ticked) : WithRead ticked s ∧ WithRead v.scopes s := by
  have hgranted : WithRead (ticked.filter (· ∈ v.scopes)) s := by
    refine withRead_trans (withRead_of_normalize hs) fun t ht => ?_
    split_ifs at ht with hread
    · obtain ht | ht := mem_append.1 ht
      · exact .inl ht
      · exact .inr ⟨mem_singleton.1 ht, hread.1⟩
    · exact .inl ht
  refine ⟨withRead_trans hgranted fun t ht => .inl (mem_filter.1 ht).1,
    withRead_trans hgranted fun t ht => .inl (of_decide_eq_true (mem_filter.1 ht).2)⟩

/-! ## The way of a consent -/

/-- The calls a consent went through until its password was right, and what they were sent. -/
structure Visit where
  request : AuthorizeRequest
  client : OAuthClient
  form : ConsentForm
  submit : ConsentSubmit
  shown : Config × Action
  typed : Config × Action
  right : Config × Action

namespace Visit

/-- The calls, the last one first. -/
def calls (t : Visit) : History := [t.right, t.typed, t.shown]

/-- A page is shown. -/
def Shows (lib : Platform) (t : Visit) (page : Consent) : Prop :=
  Opens lib t.shown.1.now t.shown.2 ((Remote.calls lib).answer t.shown) t.request t.client page

/-- The form of the page comes back, and its password is checked. -/
structure Types (lib : Platform) (t : Visit) (page : Consent) : Prop where
  typed : t.typed.2 = .consent t.form
  begun : (Remote.calls lib).answer t.typed = .verifying
  posted : t.form.request = page.id
  request : t.submit.request = page.id
  password : t.submit.password = t.form.password
  encoded : t.submit.encoded = t.typed.1.auth.state.password
  granted : t.submit.granted = RemoteAuth.tickedScopes page t.form.scopes

/-- The password is right, and the desktop is asked. -/
structure Asks (lib : Platform) (t : Visit) (page : Consent) : Prop where
  checked : t.right.2 = .consentChecked t.submit
  right : (Check.consent t.submit).right lib = true
  asked : (Remote.calls lib).answer t.right = .asked page.id

end Visit

/-- Every page, every check in flight, every consent, code and grant has its history. -/
structure Consented (lib : Platform) (h : History) (c : Config) : Prop where
  shown : ∀ k v, c.auth.consents.lookup k = some v →
    ∃ e ∈ h, ∃ r client, Opens lib e.1.now e.2 ((calls lib).answer e) r client v.page
  typed : ∀ f, .consent f ∈ c.checks → ∀ v, c.auth.consents.lookup f.request = some v →
    ∃ t : Visit, t.submit = f ∧ [t.typed, t.shown] <+ h ∧ t.Shows lib v.page ∧ t.Types lib v.page
  right : ∀ k v, c.auth.consents.lookup k = some v → v.waiting = true →
    ∃ t : Visit, t.submit.granted = v.granted ∧ t.calls <+ h ∧ t.Shows lib v.page ∧
      t.Types lib v.page ∧ t.Asks lib v.page
  codes : ∀ key entry, c.auth.codes.lookup key = some entry →
    ∃ (t : Visit) (v : Consent) (e : Config × Action), t.submit.granted = v.granted ∧
      (e :: t.calls) <+ h ∧ t.Shows lib v.page ∧ t.Types lib v.page ∧ t.Asks lib v.page ∧
      Decides lib e.1.now e.2 ((calls lib).answer e) v key entry
  grants : ∀ g ∈ c.auth.state.grants,
    ∃ (t : Visit) (v : Consent) (e₅ e₄ : Config × Action) (r : CodeExchange) (entry : AuthCode),
      t.submit.granted = v.granted ∧ (e₅ :: e₄ :: t.calls) <+ h ∧ t.Shows lib v.page ∧
      t.Types lib v.page ∧ t.Asks lib v.page ∧
      Decides lib e₄.1.now e₄.2 ((calls lib).answer e₄) v (lib.tokenHash r.code) entry ∧
      Spends lib e₅.1.now e₅.2 ((calls lib).answer e₅) r entry g.terms

theorem begin_of_ok {r : Except Outcome Check × RemoteAuth} {check : Check}
    (h : r.1 = .ok check) : (c.begin r).1 = .verifying := by
  rw [Config.begin, h]

theorem consented_act {x : Action} (hconsented : Consented lib h c) (hknown : c.Known lib h)
    (henabled : x.Enabled c)
    (hwaiting : ∀ id ∈ c.asks, ∀ v, c.auth.consents.lookup id = some v → v.waiting = true)
    (hfresh : Fresh lib h x) : Consented lib ((c, x) :: h) (x.act lib c).2 := by
  have hchange : Change lib c.now x c.auth ((calls lib).answer (c, x)) (x.act lib c).2.auth :=
    change_act x c
  refine ⟨?_, ?_, ?_, ?_, ?_⟩
  · intro k v hv
    obtain ⟨v₀, hv₀, hlater⟩ | ⟨_, _, r, client, hopens⟩ :=
      consent_of_change hknown.auth hchange hv
    · obtain ⟨e, he, hopens⟩ := hconsented.shown k v₀ hv₀
      rw [hlater.page]
      exact ⟨e, mem_cons_of_mem _ he, hopens⟩
    · exact ⟨(c, x), mem_cons_self, r, client, hopens⟩
  · intro f hf v hv
    obtain hmem | ⟨_, _, _, hsign, _⟩ | ⟨form, rfl, f', hcheck, hbegun⟩ := mem_checks_act hf
    · obtain ⟨v₀, hv₀, hlater⟩ :=
        consent_of_drawn hknown.auth hfresh hchange (hknown.checks f hmem) hv
      obtain ⟨t, hsubmit, hsub, hrest⟩ := hconsented.typed f hmem v₀ hv₀
      rw [hlater.page]
      exact ⟨t, hsubmit, hsub.cons _, hrest⟩
    · cases hsign
    · cases hcheck
      obtain ⟨_, ho, _⟩ | ⟨f', v₁, hf', hencoded, hrequest, hv₁, hpassword, hgranted, _⟩ :=
        @RemoteAuth.serveConsent_cases c.auth lib c.now form
      · cases ho.symm.trans hbegun
      cases hf'.symm.trans hbegun
      obtain ⟨hid, hdrawn⟩ := hknown.auth.consents _ _ hv₁
      rw [hrequest] at hv
      obtain ⟨v₀, hv₀, hlater⟩ := consent_of_drawn hknown.auth hfresh hchange hdrawn hv
      obtain rfl := Option.some.inj (hv₀.symm.trans hv₁)
      obtain ⟨e, he, r, client, hopens⟩ := hconsented.shown _ v₀ hv₀
      rw [hlater.page]
      have hverifying : (calls lib).answer (c, .consent form) = .verifying := by
        apply @begin_of_ok c _ (.consent f)
        rw [Prod.map_fst, hbegun]
        rfl
      exact ⟨⟨r, client, form, f, e, (c, _), (c, .consent form)⟩, rfl,
        (singleton_sublist.2 he).cons_cons _, hopens,
        ⟨rfl, hverifying, hid.symm, hrequest.trans hid.symm, hpassword, hencoded, hgranted⟩⟩
  · intro k v hv hwaits
    obtain ⟨v₀, hv₀, hlater⟩ | ⟨_, hnot, _⟩ := consent_of_change hknown.auth hchange hv
    · rw [hlater.page]
      obtain ⟨hsame, hgranted, _⟩ | ⟨f, rfl, hrequest, hasked, hright, _, hgranted⟩ := hlater.ticked
      · obtain ⟨t, ht, hsub, hrest⟩ := hconsented.right k v₀ hv₀ (hsame.symm.trans hwaits)
        exact ⟨t, ht.trans hgranted.symm, hsub.cons _, hrest⟩
      · have hkey : c.auth.consents.lookup f.request = some v₀ := by
          rw [hrequest, (hknown.auth.consents k v₀ hv₀).1]
          exact hv₀
        obtain ⟨t, rfl, hsub, hshows, htypes⟩ :=
          hconsented.typed f (henabled.1 _ rfl) v₀ hkey
        exact ⟨{ t with right := (c, _) }, hgranted.symm, hsub.cons_cons _, hshows,
          ⟨htypes.typed, htypes.begun, htypes.posted, htypes.request, htypes.password,
            htypes.encoded, htypes.granted⟩,
          ⟨rfl, hright, hasked⟩⟩
    · rw [hnot] at hwaits
      cases hwaits
  · intro key entry hentry
    obtain hbefore | ⟨v, hv, _, hdecides⟩ := code_of_change hknown.auth hchange hentry
    · obtain ⟨t, v, e, hgranted, hsub, hrest⟩ := hconsented.codes key entry hbefore
      exact ⟨t, v, e, hgranted, hsub.cons _, hrest⟩
    · obtain ⟨draws, _, rfl, _⟩ := id hdecides
      have hwaits := hwaiting v.id (henabled.2 v.id rfl) v hv
      obtain ⟨t, hgranted, hsub, hshows, htypes, hasks⟩ := hconsented.right v.id v hv hwaits
      exact ⟨t, v, (c, _), hgranted, hsub.cons_cons _, hshows, htypes, hasks, hdecides⟩
  · intro g hg
    obtain ⟨g₀, hg₀, hterms⟩ | ⟨r, entry, hentry, hspends⟩ := grant_of_change hchange hg
    · obtain ⟨t, v, e₅, e₄, r, entry, hgranted, hsub, hrest⟩ := hconsented.grants g₀ hg₀
      rw [← hterms] at hrest
      exact ⟨t, v, e₅, e₄, r, entry, hgranted, hsub.cons _, hrest⟩
    · obtain ⟨t, v, e, hgranted, hsub, hshows, htypes, hasks, hdecides⟩ :=
        hconsented.codes _ entry hentry
      exact ⟨t, v, (c, x), e, r, entry, hgranted, hsub.cons_cons _, hshows, htypes, hasks, hdecides,
        hspends⟩

theorem consented_of_run (hrun : Labelled.Run (calls lib) (fun h _ x => Fresh lib h x) {} h c) :
    Consented lib h c := by
  refine hrun.invariant ⟨?_, ?_, ?_, ?_, ?_⟩ ?_
  · exact fun _ _ hk => nomatch hk
  · exact fun _ hf => nomatch hf
  · exact fun _ _ hk => nomatch hk
  · exact fun _ _ hk => nomatch hk
  · exact fun _ hg => nomatch hg
  · intro h c x hrun hconsented henabled hfresh
    exact consented_act hconsented (known_of_run hrun) henabled
      (waiting_of_run hrun fun _ _ _ hallowed => hallowed) hfresh

/-! ## What happens once -/

/-- Whether an answer shows a consent page. -/
def Outcome.shows (consent : String) : Outcome → Bool
  | .consentPage consent' => consent' = consent
  | _ => false

/-- Whether an answer tells of the code of a consent. -/
def Outcome.decides (consent : String) : Outcome → Bool
  | .decided consent' _ => consent' = consent
  | _ => false

/-- Whether an answer tells of a code. -/
def Outcome.gives (lib : Platform) (hash : String) : Outcome → Bool
  | .decided _ code => lib.tokenHash code = hash
  | _ => false

/-- The hash of the code an exchange spends, and the grant it creates. -/
def redeemed (lib : Platform) (e : Config × Action) : Option (String × String) :=
  match e.2, (calls lib).answer e with
  | .exchange _ _ r, .issued grant _ => some (lib.tokenHash r.code, grant)
  | _, _ => none

/-- Whether an exchange spends a code. -/
def redeems (lib : Platform) (hash : String) (e : Config × Action) : Bool :=
  (redeemed lib e).any (·.1 = hash)

/-- Whether an exchange creates a grant. -/
def creates (lib : Platform) (grant : String) (e : Config × Action) : Bool :=
  (redeemed lib e).any (·.2 = grant)

theorem drawn_of_shows {x : Action} {consent : String}
    (hshows : ((calls lib).answer (c, x)).shows consent = true) :
    consent ∈ x.draws.drawn lib := by
  have hchange : Change lib c.now x c.auth ((calls lib).answer (c, x)) (x.act lib c).2.auth :=
    change_act x c
  generalize (calls lib).answer (c, x) = o at hshows hchange
  cases hchange with
  | kept hplain _ =>
    cases o with
    | consentPage => cases hplain
    | _ => cases hshows
  | added _ hadds _ =>
    cases hadds with
    | consentPage _ _ hid =>
      obtain rfl := of_decide_eq_true hshows
      exact Draws.mem_id hid
    | rotated _ _ _ _ ho => obtain rfl | ⟨_, rfl⟩ := ho <;> cases hshows
    | _ => cases hshows

theorem eq_of_decides {o : Outcome} {consent : String} (h : o.decides consent = true) :
    ∃ code, o = .decided consent code := by
  cases o with
  | decided consent' code =>
    obtain rfl := of_decide_eq_true h
    exact ⟨code, rfl⟩
  | _ => cases h

theorem eq_of_gives {o : Outcome} {hash : String} (h : o.gives lib hash = true) :
    ∃ consent code, o = .decided consent code ∧ lib.tokenHash code = hash := by
  cases o with
  | decided consent code => exact ⟨consent, code, rfl, of_decide_eq_true h⟩
  | _ => cases h

theorem eq_of_redeemed {e : Config × Action} {hash grant : String}
    (h : redeemed lib e = some (hash, grant)) :
    ∃ draws save r tokens, e.2 = .exchange draws save r ∧ lib.tokenHash r.code = hash ∧
      (calls lib).answer e = .issued grant tokens := by
  unfold redeemed at h
  split at h
  · next hx hanswer =>
    cases h
    exact ⟨_, _, _, _, hx, rfl, hanswer⟩
  · cases h

/-- A consent is decided once. -/
theorem decide_of_answer {x : Action} {consent code : String}
    (hanswer : (calls lib).answer (c, x) = .decided consent code) :
    lib.tokenHash code ∈ x.draws.drawn lib ∧
      (∃ v, c.auth.consents.lookup consent = some v ∧ v.decided = false) ∧
      ∀ v, (x.act lib c).2.auth.consents.lookup consent = some v → v.decided = true := by
  have hchange : Change lib c.now x c.auth ((calls lib).answer (c, x)) (x.act lib c).2.auth :=
    change_act x c
  rw [hanswer] at hchange
  cases hchange with
  | kept hplain _ => cases hplain
  | added hbefore hadds hafter =>
    cases hadds with
    | decided hc hopen hcode =>
      obtain ⟨v, hv, _, hdecided⟩ := hbefore.consents _ _ hc
      refine ⟨Draws.mem_token hcode, ⟨v, hv, Bool.eq_false_iff.2 fun hv => ?_⟩, ?_⟩
      · exact Bool.false_ne_true (hopen.symm.trans (hdecided hv))
      · intro v' hv'
        obtain ⟨v₁, hv₁, hkept⟩ := hafter.consents _ _ hv'
        rw [AList.lookup_insert] at hv₁
        cases hv₁
        exact hkept.decided rfl
    | rotated _ _ _ _ ho => obtain ho | ⟨_, ho⟩ := ho <;> cases ho

/-- A code that is exchanged for a grant was there, and is gone. -/
theorem exchange_of_redeemed {x : Action} {hash grant : String}
    (hredeemed : redeemed lib (c, x) = some (hash, grant)) :
    grant ∈ x.draws.drawn lib ∧ (∃ entry, c.auth.codes.lookup hash = some entry) ∧
      (x.act lib c).2.auth.codes.lookup hash = none := by
  obtain ⟨draws, save, r, tokens, rfl, rfl, hanswer⟩ := eq_of_redeemed hredeemed
  have hchange : Change lib c.now (.exchange draws save r) c.auth
      ((calls lib).answer (c, .exchange draws save r))
      ((Action.exchange draws save r).act lib c).2.auth := change_act _ c
  rw [hanswer] at hchange
  cases hchange with
  | kept hplain _ => cases hplain
  | added hbefore hadds hafter =>
    cases hadds with
    | issued hcode _ _ hid =>
      obtain ⟨_, hentry, rfl⟩ := hbefore.codes _ _ hcode
      refine ⟨Draws.mem_id hid, ⟨_, hentry⟩, Option.eq_none_iff_forall_ne_some.2 fun v hv => ?_⟩
      obtain ⟨_, hv, _⟩ := hafter.codes _ _ hv
      exact (GoMap.lookup_of_erase hv).1 rfl

/-- Consents that were decided stay so, and codes that were exchanged are gone. -/
structure Settled (lib : Platform) (h : History) (c : Config) : Prop where
  decided : ∀ e ∈ h, ∀ consent code, (calls lib).answer e = .decided consent code →
    Drawn lib h consent ∧ ∀ v, c.auth.consents.lookup consent = some v → v.decided = true
  redeemed : ∀ e ∈ h, ∀ hash grant, redeemed lib e = some (hash, grant) →
    Drawn lib h hash ∧ c.auth.codes.lookup hash = none

theorem settled_of_run (hrun : Labelled.Run (calls lib) (fun h _ x => Fresh lib h x) {} h c) :
    Settled lib h c := by
  refine hrun.invariant ⟨?_, ?_⟩ ?_
  · exact fun _ he => nomatch he
  · exact fun _ he => nomatch he
  intro h c x hrun hsettled _ hfresh
  have hknown := known_of_run hrun
  have hchange : Change lib c.now x c.auth ((calls lib).answer (c, x)) (x.act lib c).2.auth :=
    change_act x c
  refine ⟨?_, ?_⟩
  · intro e he consent code hanswer
    obtain rfl | he := mem_cons.1 he
    · obtain ⟨_, ⟨v, hv, _⟩, hdecided⟩ := decide_of_answer hanswer
      exact ⟨(hknown.auth.consents _ v hv).2.cons _, hdecided⟩
    · obtain ⟨hdrawn, hdecided⟩ := hsettled.decided e he consent code hanswer
      refine ⟨hdrawn.cons _, fun v hv => ?_⟩
      obtain ⟨v₀, hv₀, hlater⟩ := consent_of_drawn hknown.auth hfresh hchange hdrawn hv
      exact hlater.decided (hdecided v₀ hv₀)
  · intro e he hash grant hredeemed
    obtain rfl | he := mem_cons.1 he
    · obtain ⟨_, ⟨entry, hentry⟩, hgone⟩ := exchange_of_redeemed hredeemed
      exact ⟨(hknown.auth.codes _ _ hentry).cons _, hgone⟩
    · obtain ⟨hdrawn, hgone⟩ := hsettled.redeemed e he hash grant hredeemed
      refine ⟨hdrawn.cons _, Option.eq_none_iff_forall_ne_some.2 fun entry hentry => ?_⟩
      obtain hbefore | ⟨v, _, _, _, code, rfl, hcode, _, rfl, _⟩ :=
        code_of_change hknown.auth hchange hentry
      · rw [hgone] at hbefore
        cases hbefore
      · exact hfresh.not_drawn (Draws.mem_token hcode) hdrawn

theorem decides_once (hrun : Labelled.Run (calls lib) (fun h _ x => Fresh lib h x) {} h c)
    (consent : String) :
    (h.filter fun e => ((calls lib).answer e).decides consent).length ≤ 1 := by
  refine hrun.invariant (P := fun h _ => (h.filter _).length ≤ 1) (Nat.zero_le 1) ?_
  intro h c x hrun honce _ _
  apply Labelled.once_cons _ honce
  intro hnow e he hbefore
  obtain ⟨code, hanswer⟩ := eq_of_decides hnow
  obtain ⟨code', hanswer'⟩ := eq_of_decides hbefore
  obtain ⟨_, ⟨v, hv, hopen⟩, _⟩ := decide_of_answer hanswer
  have hdecided := ((settled_of_run hrun).decided e he consent code' hanswer').2 v hv
  exact Bool.false_ne_true (hopen.symm.trans hdecided)

theorem gives_once (hrun : Labelled.Run (calls lib) (fun h _ x => Fresh lib h x) {} h c)
    (hash : String) : (h.filter fun e => ((calls lib).answer e).gives lib hash).length ≤ 1 := by
  have hdrawn : ∀ c x, ((calls lib).answer (c, x)).gives lib hash = true →
      hash ∈ x.draws.drawn lib := by
    intro c x hgives
    obtain ⟨consent, code, hanswer, rfl⟩ := eq_of_gives hgives
    exact (decide_of_answer hanswer).1
  exact once_of_drawn hrun hdrawn

theorem redeems_once (hrun : Labelled.Run (calls lib) (fun h _ x => Fresh lib h x) {} h c)
    (hash : String) : (h.filter (redeems lib hash)).length ≤ 1 := by
  refine hrun.invariant (P := fun h _ => (h.filter _).length ≤ 1) (Nat.zero_le 1) ?_
  intro h c x hrun honce _ _
  apply Labelled.once_cons _ honce
  intro hnow e he hbefore
  obtain ⟨⟨_, grant⟩, hredeemed, hhash⟩ := (Option.any_eq_true _ _).1 hnow
  obtain ⟨⟨_, grant'⟩, hredeemed', hhash'⟩ := (Option.any_eq_true _ _).1 hbefore
  obtain rfl := of_decide_eq_true hhash
  obtain rfl := of_decide_eq_true hhash'
  obtain ⟨_, ⟨entry, hentry⟩, _⟩ := exchange_of_redeemed hredeemed
  rw [((settled_of_run hrun).redeemed e he _ grant' hredeemed').2] at hentry
  cases hentry

theorem creates_once (hrun : Labelled.Run (calls lib) (fun h _ x => Fresh lib h x) {} h c)
    (grant : String) : (h.filter (creates lib grant)).length ≤ 1 := by
  have hdrawn : ∀ c x, creates lib grant (c, x) = true → grant ∈ x.draws.drawn lib := by
    intro c x hcreates
    obtain ⟨⟨hash, _⟩, hredeemed, hgrant⟩ := (Option.any_eq_true _ _).1 hcreates
    obtain rfl := of_decide_eq_true hgrant
    exact (exchange_of_redeemed hredeemed).1
  exact once_of_drawn hrun hdrawn

/-! ## Every run -/

/-- A grant comes of one way through the sign-in: a page was shown, its form came back with the
right password, the desktop was asked about that page and gave out a code, and the client of the
page exchanged the code in time, for no more than was both asked for and ticked. -/
structure Informed (lib : Platform) (h : History) (t : Visit) (consent code : String)
    (e₄ : Config × Action) (r : CodeExchange) (e₅ : Config × Action) (g : GrantRecord) : Prop where
  order : [e₅, e₄, t.right, t.typed, t.shown] <+ h
  shown : (∃ draws, t.shown.2 = .authorizeClient draws t.request) ∧
    (calls lib).answer t.shown = .consentPage consent
  typed : t.typed.2 = .consent t.form ∧ t.form.request = consent ∧
    (calls lib).answer t.typed = .verifying
  right : t.right.2 = .consentChecked t.submit ∧ t.submit.request = consent ∧
    t.submit.password = t.form.password ∧
    t.submit.encoded = t.typed.1.auth.state.password ∧
    (Check.consent t.submit).right lib = true ∧ (calls lib).answer t.right = .asked consent
  approved : (∃ draws, e₄.2 = .decide draws consent none) ∧
    (calls lib).answer e₄ = .decided consent code
  exchanged : (∃ draws save, e₅.2 = .exchange draws save r) ∧
    lib.tokenHash r.code = lib.tokenHash code ∧
    (∃ tokens, (calls lib).answer e₅ = .issued g.id tokens) ∧
    e₅.1.now < e₄.1.now + remoteCodeTTL
  client : t.request.resolved lib t.shown.1.now = .ok t.client ∧
    g.clientID = t.request.clientID ∧ r.clientID = t.request.clientID
  redirect : g.redirect = RemoteAuth.redirectHost lib (t.request.redirect t.client) ∧
    (r.redirect = "" ∨ r.redirect = t.request.redirect t.client)
  resource : g.resource = lib.toLower (remoteResource lib t.request.host) ∧
    (t.request.resource = "" ∨
      lib.equalFold t.request.resource (remoteResource lib t.request.host) = true)
  challenge : pkceMatches lib r.verifier t.request.challenge = true
  scopes : ∀ s ∈ g.scopes, WithRead t.request.requested s ∧ WithRead t.form.scopes s

theorem id_of_resolved {now : Nat} {r : AuthorizeRequest} {client : OAuthClient}
    (h : r.resolved lib now = .ok client) : client.id = r.clientID := by
  unfold AuthorizeRequest.resolved resolveClient at h
  by_cases hurl : "https://".toList <+: r.clientID.toList
  · rw [if_pos hurl] at h
    split at h
    · cases h
    split at h
    · cases h
    split at h
    · cases h
    · cases h
      rfl
  · rw [if_neg hurl] at h
    split at h
    · cases h
    · next record hfound =>
      cases h
      have hid := List.find?_some hfound
      exact of_decide_eq_true hid

theorem resource_of_checkAuthorize {a : RemoteAuth} {r : AuthorizeRequest} {client : OAuthClient}
    (h : RemoteAuth.checkAuthorize lib r client a = .ok ()) :
    r.resource = "" ∨ lib.equalFold r.resource (remoteResource lib r.host) = true := by
  unfold RemoteAuth.checkAuthorize at h
  dsimp only at h
  split_ifs at h with _ _ _ hresource
  by_cases hempty : r.resource = ""
  · exact .inl hempty
  · refine .inr ?_
    simpa [hempty] using hresource

/-- What a code is exchanged for is what its consent was for. -/
theorem checked_of_exchange {r : CodeExchange} {entry : AuthCode}
    (h : RemoteAuth.checkExchange lib r entry = .ok ()) :
    entry.client.id = r.clientID ∧ (r.redirect = "" ∨ r.redirect = entry.redirectURI) ∧
      pkceMatches lib r.verifier entry.challenge = true := by
  unfold RemoteAuth.checkExchange at h
  split_ifs at h with hwrong
  rw [not_or, not_or, not_and_or] at hwrong
  obtain ⟨hclient, hredirect, hpkce⟩ := hwrong
  exact ⟨not_not.1 hclient, hredirect.imp not_not.1 not_not.1, by simpa using hpkce⟩

/-- The way of a consent, to the grant. -/
theorem informed_of_consented {t : Visit} {v : Consent} {e₅ e₄ : Config × Action}
    {r : CodeExchange} {entry : AuthCode} {g : GrantRecord}
    (hgranted : t.submit.granted = v.granted) (hsub : (e₅ :: e₄ :: t.calls) <+ h)
    (hshows : t.Shows lib v.page) (htypes : t.Types lib v.page) (hasks : t.Asks lib v.page)
    (hdecides : Decides lib e₄.1.now e₄.2 ((calls lib).answer e₄) v (lib.tokenHash r.code) entry)
    (hspends : Spends lib e₅.1.now e₅.2 ((calls lib).answer e₅) r entry g.terms) :
    ∃ code, Informed lib h t v.id code e₄ r e₅ g := by
  obtain ⟨⟨draws, hshown, _⟩, hresolved, ⟨a, hcheck⟩, hpage, hnew⟩ := hshows
  obtain ⟨draws₄, code, hdecide, _, hdecided, hhash, rfl⟩ := hdecides
  obtain ⟨⟨draws₅, save, tokens, hexchange, _, hissued⟩, htime, hchecked, hterms⟩ := hspends
  obtain ⟨hclient, hredirect, hpkce⟩ := checked_of_exchange hchecked
  have hv : ∀ {β : Type} (f : Consent → β), f v.page = f (RemoteAuth.newConsent lib
      t.shown.1.now t.request t.client v.page.id v.page.csrf) := fun f => congrArg f hnew
  have hvclient : v.client = t.client := hv Consent.client
  have hvredirect : v.redirectURI = t.request.redirect t.client := hv Consent.redirectURI
  have hvscopes : v.scopes = t.request.scopes := hv Consent.scopes
  have hvresource : v.resource = remoteResource lib t.request.host := hv Consent.resource
  have hvchallenge : v.challenge = t.request.challenge := hv Consent.challenge
  have hid : t.client.id = t.request.clientID := id_of_resolved hresolved
  have hg : ∀ {β : Type} (f : GrantRecord → β), f g.terms =
      f ((v.authCode e₄.1.now).grant lib e₅.1.now g.terms.id) := fun f => congrArg f hterms
  have hgclient : g.clientID = v.client.id := hg GrantRecord.clientID
  have hgredirect : g.redirect = RemoteAuth.redirectHost lib v.redirectURI :=
    hg GrantRecord.redirect
  have hgresource : g.resource = lib.toLower v.resource := hg GrantRecord.resource
  have hgscopes : g.scopes = normalizeRemoteScopes v.granted := hg GrantRecord.scopes
  have hrclient : v.client.id = r.clientID := hclient
  refine ⟨code, hsub, ⟨⟨draws, hshown⟩, hpage⟩, ⟨htypes.typed, htypes.posted, htypes.begun⟩,
    ⟨hasks.checked, htypes.request, htypes.password, htypes.encoded, hasks.right, hasks.asked⟩,
    ⟨⟨draws₄, hdecide⟩, hdecided⟩, ⟨⟨draws₅, save, hexchange⟩, hhash.symm, ⟨tokens, hissued⟩, htime⟩,
    ⟨hresolved, ?_, ?_⟩, ⟨?_, ?_⟩, ⟨?_, resource_of_checkAuthorize hcheck⟩, ?_, ?_⟩
  · rw [hgclient, hvclient, hid]
  · rw [← hrclient, hvclient, hid]
  · rw [hgredirect, hvredirect]
  · rw [← hvredirect]
    exact hredirect
  · rw [hgresource, hvresource]
  · rw [← hvchallenge]
    exact hpkce
  · intro s hs
    rw [hgscopes, ← hgranted, htypes.granted] at hs
    have hticked := withRead_of_normalize hs
    refine ⟨withRead_trans hticked fun u hu => ?_,
      withRead_trans hticked fun u hu => (withRead_of_ticked hu).1⟩
    refine withRead_trans (withRead_of_ticked hu).2 fun w hw => ?_
    have hw : w ∈ v.scopes := hw
    rw [hvscopes] at hw
    exact withRead_of_normalize hw

theorem Informed.mono {h' : History} {t : Visit} {consent code : String}
    {e₄ e₅ : Config × Action} {r : CodeExchange} {g : GrantRecord}
    (hinformed : Informed lib h t consent code e₄ r e₅ g) (hsub : h <+ h') :
    Informed lib h' t consent code e₄ r e₅ g :=
  { hinformed with order := hinformed.order.trans hsub }

/-- Every grant there is goes back to an informed consent. -/
theorem informed_of_run (hrun : Labelled.Run (calls lib) (fun h _ x => Fresh lib h x) {} h c) :
    ∀ g ∈ c.auth.state.grants,
      ∃ t consent code e₄ r e₅, Informed lib h t consent code e₄ r e₅ g := by
  intro g hg
  obtain ⟨t, v, e₅, e₄, r, entry, hgranted, hsub, hshows, htypes, hasks, hdecides, hspends⟩ :=
    (consented_of_run hrun).grants g hg
  obtain ⟨code, hinformed⟩ :=
    informed_of_consented hgranted hsub hshows htypes hasks hdecides hspends
  exact ⟨t, v.id, code, e₄, r, e₅, hinformed⟩

theorem drawn_of_issued {draws : Draws} {save : Option String} {r : CodeExchange} {grant : String}
    {tokens : RemoteTokens}
    (hissued : (calls lib).answer (c, .exchange draws save r) = .issued grant tokens) :
    grant ∈ draws.drawn lib := by
  have hredeemed : redeemed lib (c, .exchange draws save r) =
      some (lib.tokenHash r.code, grant) := by
    rw [redeemed, hissued]
  exact (exchange_of_redeemed hredeemed).1

/-- Every grant traces to one informed consent: the grants there are, and those a code was ever
exchanged for. A page is shown once, a consent is given one code and no other consent is given it,
and a code is exchanged for one grant and a grant created for one code. -/
theorem informed_consent (hrun : Labelled.Run (calls lib) (fun h _ x => Fresh lib h x) {} h c) :
    (∀ g ∈ c.auth.state.grants,
      ∃ t consent code e₄ r e₅, Informed lib h t consent code e₄ r e₅ g) ∧
    (∀ e₅ ∈ h, ∀ draws save r grant tokens, e₅.2 = .exchange draws save r →
      (calls lib).answer e₅ = .issued grant tokens →
      ∃ g ∈ (e₅.2.act lib e₅.1).2.auth.state.grants, g.id = grant ∧
        ∃ t consent code e₄, Informed lib h t consent code e₄ r e₅ g) ∧
    (∀ consent, (h.filter fun e => ((calls lib).answer e).shows consent).length ≤ 1) ∧
    (∀ consent, (h.filter fun e => ((calls lib).answer e).decides consent).length ≤ 1) ∧
    (∀ hash, (h.filter fun e => ((calls lib).answer e).gives lib hash).length ≤ 1) ∧
    (∀ hash, (h.filter (redeems lib hash)).length ≤ 1) ∧
    ∀ grant, (h.filter (creates lib grant)).length ≤ 1 := by
  refine ⟨informed_of_run hrun, ?_, ?_, decides_once hrun, gives_once hrun, redeems_once hrun,
    creates_once hrun⟩
  · rintro ⟨c₅, x⟩ he draws save r grant tokens rfl hissued
    obtain ⟨newer, older, rfl⟩ := append_of_mem he
    obtain ⟨hrun₅, henabled, hfresh⟩ := hrun.before
    obtain ⟨g, hg, hid⟩ := RemoteAuth.mem_of_exchange hissued
    refine ⟨g, hg, hid, ?_⟩
    obtain ⟨t, consent, code, e₄, r', e₅', hinformed⟩ :=
      informed_of_run (.act hrun₅ _ henabled hfresh) g hg
    -- The grant's id was drawn by this exchange, so no earlier one created it.
    obtain rfl | he₅' := mem_cons.1 (hinformed.order.subset mem_cons_self)
    · obtain ⟨⟨_, _, hx⟩, _⟩ := hinformed.exchanged
      cases hx
      exact ⟨t, consent, code, e₄, hinformed.mono (sublist_append_right _ _)⟩
    · obtain ⟨c', x'⟩ := e₅'
      obtain ⟨⟨draws', save', hx⟩, _, ⟨tokens', hissued'⟩, _⟩ := hinformed.exchanged
      obtain rfl : x' = .exchange draws' save' r' := hx
      rw [hid] at hissued'
      exact absurd ⟨_, he₅', drawn_of_issued hissued'⟩
        (hfresh.not_drawn (drawn_of_issued hissued))
  · exact fun consent => once_of_drawn hrun fun _ _ => drawn_of_shows

theorem informed_consent_connector :
    let run := (calls samplePlatform).play {} sampleConnector
    run.2.auth.state.grants.map (·.id) = ["grant00000000001"] ∧
      ∀ g ∈ run.2.auth.state.grants,
        ∃ t consent code e₄ r e₅, Informed samplePlatform run.1 t consent code e₄ r e₅ g := by
  have hplayable : (calls samplePlatform).Playable (fun h _ x => Fresh samplePlatform h x) {}
      sampleConnector := by decide +kernel
  exact ⟨by decide +kernel, (informed_consent hplayable.run).1⟩

end Konnekt.Remote
