import Konnekt.Remote.Names

/-!
# Consents and codes over time

A consent keeps what its page was shown for. What was ticked comes with a right
password, and a code with the desktop's answer.
-/

namespace Konnekt.Remote

open Go

variable {lib : Platform} {h : History} {a a' : RemoteAuth} {c : Config} {now : Nat} {x : Action}
  {o : Outcome}

/-- A consent as its page was shown. -/
def Consent.page (v : Consent) : Consent :=
  { v with waiting := false, decided := false, granted := [], code := "", deny := "" }

/-- What becomes of a consent: its page stays, and only a right password of that page ticks. -/
structure Consent.Later (lib : Platform) (x : Action) (o : Outcome) (v v' : Consent) : Prop where
  page : v'.page = v.page
  decided : v.decided = true → v'.decided = true
  ticked : v'.waiting = v.waiting ∧ v'.granted = v.granted ∧ o ≠ .asked v.id ∨
    ∃ f, x = .consentChecked f ∧ f.request = v.id ∧ o = .asked v.id ∧
      (Check.consent f).right lib = true ∧ v'.waiting = true ∧ v'.granted = f.granted

theorem Consent.Later.kept {v v' : Consent} (hkept : v.Kept v') (ho : o ≠ .asked v.id) :
    v.Later lib x o v' := by
  obtain ⟨⟨_, _, rfl⟩, hdecided⟩ := hkept
  exact ⟨rfl, hdecided, .inl ⟨rfl, rfl, ho⟩⟩

theorem Consent.Later.around {v v₁ v₂ v' : Consent} (hbefore : v.Kept v₁)
    (hlater : v₁.Later lib x o v₂) (hafter : v₂.Kept v') : v.Later lib x o v' := by
  obtain ⟨⟨_, _, rfl⟩, hdecided⟩ := hbefore
  obtain ⟨⟨_, _, rfl⟩, hdecided'⟩ := hafter
  exact ⟨hlater.page, fun hv => hdecided' (hlater.decided (hdecided hv)), hlater.ticked⟩

/-- A consent page is shown. -/
def Opens (lib : Platform) (now : Nat) (x : Action) (o : Outcome) (r : AuthorizeRequest)
    (client : OAuthClient) (page : Consent) : Prop :=
  (∃ draws, x = .authorizeClient draws r ∧ draws.id = .ok page.id) ∧
    r.resolved lib now = .ok client ∧ (∃ a, RemoteAuth.checkAuthorize lib r client a = .ok ()) ∧
    o = .consentPage page.id ∧ page = RemoteAuth.newConsent lib now r client page.id page.csrf

/-- The desktop's yes gives out the code of a consent. -/
def Decides (lib : Platform) (now : Nat) (x : Action) (o : Outcome) (v : Consent) (key : String)
    (entry : AuthCode) : Prop :=
  ∃ draws code, x = .decide draws v.id none ∧ draws.token = .ok code ∧ o = .decided v.id code ∧
    lib.tokenHash code = key ∧ entry = v.authCode now

/-- A grant but for its tokens and its last use. -/
def GrantRecord.terms (g : GrantRecord) : GrantRecord :=
  { g with
    accessHash := "", accessExpires := 0, refreshHash := "", prevRefreshHash := "", lastUsed := 0 }

/-- A code is exchanged for a grant. -/
def Spends (lib : Platform) (now : Nat) (x : Action) (o : Outcome) (r : CodeExchange)
    (entry : AuthCode) (terms : GrantRecord) : Prop :=
  (∃ draws save tokens, x = .exchange draws save r ∧ draws.id = .ok terms.id ∧
    o = .issued terms.id tokens) ∧ now < entry.expires ∧
      RemoteAuth.checkExchange lib r entry = .ok () ∧ terms = entry.grant lib now terms.id

theorem consent_of_adds (hknown : a.Known lib h) (hadds : Adds lib now x o a a') {k : String}
    {v' : Consent} (hv' : a'.consents.lookup k = some v') :
    (∃ v, a.consents.lookup k = some v ∧ v.Later lib x o v') ∨
      v'.id = k ∧ v'.waiting = false ∧ ∃ r client, Opens lib now x o r client v'.page := by
  have hsame : a'.consents.lookup k = a.consents.lookup k → o ≠ .asked k →
      ∃ v, a.consents.lookup k = some v ∧ v.Later lib x o v' := by
    intro hsame ho
    rw [hsame] at hv'
    rw [← (hknown.consents k v' hv').1] at ho
    exact ⟨v', hv', .kept (Consent.Kept.refl v') ho⟩
  cases hadds with
  | passwordSet hset =>
    rw [hset.consents] at hv'
    cases hv'
  | consentPage hclient hcheck hid =>
    obtain ⟨rfl, rfl⟩ | ⟨hne, hv⟩ := GoMap.lookup_of_insert hv'
    · exact .inr ⟨rfl, rfl, _, _, ⟨_, rfl, hid⟩, hclient, ⟨_, hcheck⟩, rfl, rfl⟩
    · exact .inl (hsame (AList.lookup_insert_ne hne) nofun)
  | @asked f _ v hc _ hright =>
    obtain ⟨rfl, rfl⟩ | ⟨hne, hv⟩ := GoMap.lookup_of_insert hv'
    · have hid := (hknown.consents _ _ hc).1
      refine .inl ⟨v, hc, rfl, fun hv => hv, .inr ⟨f, rfl, hid.symm, ?_, hright, rfl, rfl⟩⟩
      rw [hid]
    · exact .inl
        (hsame (AList.lookup_insert_ne hne) fun ho => hne (Outcome.asked.inj ho).symm)
  | decided hc =>
    obtain ⟨rfl, rfl⟩ | ⟨hne, hv⟩ := GoMap.lookup_of_insert hv'
    · exact .inl ⟨_, hc, rfl, fun _ => rfl, .inl ⟨rfl, rfl, nofun⟩⟩
    · exact .inl (hsame (AList.lookup_insert_ne hne) nofun)
  | rotated _ _ _ _ ho =>
    refine .inl (hsame rfl ?_)
    obtain rfl | ⟨_, rfl⟩ := ho <;> nofun
  | _ => exact .inl (hsame rfl nofun)

/-- A consent after a call was there before it, or has just been shown. -/
theorem consent_of_change (hknown : a.Known lib h) (hchange : Change lib now x a o a')
    {k : String} {v' : Consent} (hv' : a'.consents.lookup k = some v') :
    (∃ v, a.consents.lookup k = some v ∧ v.Later lib x o v') ∨
      v'.id = k ∧ v'.waiting = false ∧ ∃ r client, Opens lib now x o r client v'.page := by
  cases hchange with
  | kept hplain hkeeps =>
    obtain ⟨v, hv, hkept⟩ := hkeeps.consents k v' hv'
    refine .inl ⟨v, hv, .kept hkept ?_⟩
    rintro rfl
    cases hplain
  | added hbefore hadds hafter =>
    obtain ⟨v₁, hv₁, hkept'⟩ := hafter.consents k v' hv'
    obtain ⟨v₂, hv₂, hlater⟩ | ⟨hid, hwaiting, r, client, hopens⟩ :=
      consent_of_adds (hknown.keeps hbefore) hadds hv₁
    · obtain ⟨v, hv, hkept⟩ := hbefore.consents k v₂ hv₂
      exact .inl ⟨v, hv, hlater.around hkept hkept'⟩
    · obtain ⟨⟨_, _, rfl⟩, _⟩ := hkept'
      exact .inr ⟨hid, hwaiting, r, client, hopens⟩

/-- A consent under a name that was drawn before a call was there before it. -/
theorem consent_of_drawn (hknown : a.Known lib h) (hfresh : Fresh lib h x)
    (hchange : Change lib now x a o a') {k : String} (hk : Drawn lib h k) {v' : Consent}
    (hv' : a'.consents.lookup k = some v') :
    ∃ v, a.consents.lookup k = some v ∧ v.Later lib x o v' := by
  obtain hbefore | ⟨rfl, _, _, _, ⟨_, rfl, hid⟩, _⟩ := consent_of_change hknown hchange hv'
  · exact hbefore
  · exact absurd hk (hfresh.not_drawn (Draws.mem_id hid))

/-- The desktop is asked about consents whose password was right. -/
theorem waiting_of_run {allowed : History → Config → Action → Prop}
    (hrun : Labelled.Run (calls lib) allowed {} h c)
    (hle : ∀ h c x, allowed h c x → Fresh lib h x) :
    ∀ id ∈ c.asks, ∀ v, c.auth.consents.lookup id = some v → v.waiting = true := by
  refine hrun.invariant (P := fun _ c => ∀ id ∈ c.asks, ∀ v,
    c.auth.consents.lookup id = some v → v.waiting = true) nofun ?_
  intro h c x hrun hwaiting henabled hallowed id hid v hv
  have hknown := known_of_run hrun
  have hfresh := hle h c x hallowed
  have hchange : Change lib c.now x c.auth (x.act lib c).1 (x.act lib c).2.auth := change_act x c
  obtain hmem | hasked := mem_asks_act hid
  · obtain ⟨v₀, hv₀, hlater⟩ := consent_of_drawn hknown.auth hfresh hchange (hknown.asks id hmem) hv
    obtain ⟨hsame, _⟩ | ⟨_, _, _, _, _, hright, _⟩ := hlater.ticked
    · exact hsame.trans (hwaiting id hmem v₀ hv₀)
    · exact hright
  · rw [hasked] at hchange
    obtain ⟨f, rfl, rfl, _⟩ := asked_of_change hchange
    obtain ⟨v₀, hv₀, hlater⟩ :=
      consent_of_drawn hknown.auth hfresh hchange (hknown.checks f (henabled.1 _ rfl)) hv
    obtain ⟨_, _, hnot⟩ | ⟨_, _, _, _, _, hright, _⟩ := hlater.ticked
    · rw [(hknown.auth.consents _ _ hv₀).1] at hnot
      exact absurd rfl hnot
    · exact hright

/-- A code after a call was there before it, or is the desktop's yes to a consent. -/
theorem code_of_change (hknown : a.Known lib h) (hchange : Change lib now x a o a') {key : String}
    {entry : AuthCode} (hentry : a'.codes.lookup key = some entry) :
    a.codes.lookup key = some entry ∨
      ∃ v, a.consents.lookup v.id = some v ∧ v.decided = false ∧
        Decides lib now x o v key entry := by
  cases hchange with
  | kept _ hkeeps =>
    obtain ⟨_, hbefore, rfl⟩ := hkeeps.codes key entry hentry
    exact .inl hbefore
  | @added mid _ hbefore hadds hafter =>
    obtain ⟨_, hmid, rfl⟩ := hafter.codes key entry hentry
    have hold : ∀ v, mid.codes.lookup key = some v → a.codes.lookup key = some v := by
      intro v hv
      obtain ⟨_, hbefore, rfl⟩ := hbefore.codes key v hv
      exact hbefore
    cases hadds with
    | passwordSet hset =>
      rw [hset.codes] at hmid
      cases hmid
    | decided hc hopen hcode =>
      obtain ⟨rfl, rfl⟩ | ⟨_, hcode'⟩ := GoMap.lookup_of_insert hmid
      · obtain ⟨v, hv, ⟨_, _, rfl⟩, hdecided⟩ := hbefore.consents _ _ hc
        have hid := (hknown.consents _ _ hv).1
        subst hid
        refine .inr ⟨v, hv, ?_, _, _, rfl, hcode, rfl, rfl, rfl⟩
        exact Bool.eq_false_iff.2 fun hv => Bool.false_ne_true (hopen.symm.trans (hdecided hv))
      · exact .inl (hold _ hcode')
    | issued => exact .inl (hold _ (GoMap.lookup_of_erase hmid).2)
    | _ => exact .inl (hold _ hmid)

theorem terms_of_setGrant {i : Nat} {g g' r : GrantRecord} (hi : a.state.grants[i]? = some g)
    (hr : r ∈ (a.setGrant i g').state.grants) (hterms : g'.terms = g.terms) :
    ∃ r₀ ∈ a.state.grants, r.terms = r₀.terms := by
  obtain hmem | rfl := List.mem_or_eq_of_mem_set hr
  · exact ⟨r, hmem, rfl⟩
  · exact ⟨g, List.mem_of_getElem? hi, hterms⟩

/-- A grant after a call was there before it, or is what a code is exchanged for. -/
theorem grant_of_change (hchange : Change lib now x a o a') {g : GrantRecord}
    (hg : g ∈ a'.state.grants) :
    (∃ g₀ ∈ a.state.grants, g.terms = g₀.terms) ∨
      ∃ r entry, a.codes.lookup (lib.tokenHash r.code) = some entry ∧
        Spends lib now x o r entry g.terms := by
  have hkeep : ∀ {b b' : RemoteAuth} {r : GrantRecord}, Keeps b b' → r ∈ b'.state.grants →
      ∃ r₀ ∈ b.state.grants, r.terms = r₀.terms := by
    intro b b' r hkeeps hr
    obtain ⟨r₀, hmem, hcore⟩ := hkeeps.mem_grants hr
    obtain ⟨_, rfl⟩ := GrantRecord.of_core hcore
    exact ⟨r₀, hmem, rfl⟩
  cases hchange with
  | kept _ hkeeps => exact .inl (hkeep hkeeps hg)
  | @added mid _ hbefore hadds hafter =>
    obtain ⟨g₁, hg₁, hterms⟩ := hkeep hafter hg
    have hold : (∃ r₀ ∈ mid.state.grants, g₁.terms = r₀.terms) →
        ∃ g₀ ∈ a.state.grants, g.terms = g₀.terms := by
      rintro ⟨r₀, hr₀, hsame⟩
      obtain ⟨g₀, hg₀, hsame'⟩ := hkeep hbefore hr₀
      exact ⟨g₀, hg₀, hterms.trans (hsame.trans hsame')⟩
    cases hadds with
    | passwordSet hset =>
      rw [hset.grants] at hg₁
      cases hg₁
    | issued hcode hnew hcheck hid =>
      obtain hmem | hmem := List.mem_append.1 hg₁
      · exact .inl (hold ⟨g₁, hmem, rfl⟩)
      · rw [List.mem_singleton.1 hmem] at hterms
        obtain ⟨_, hcode', rfl⟩ := hbefore.codes _ _ hcode
        rw [hterms]
        exact .inr ⟨_, _, hcode', ⟨_, _, _, rfl, hid, rfl⟩, hnew, hcheck, rfl⟩
    | renewed hi => exact .inl (hold (terms_of_setGrant hi hg₁ rfl))
    | rotated hi => exact .inl (hold (terms_of_setGrant hi hg₁ rfl))
    | _ => exact .inl (hold ⟨g₁, hg₁, rfl⟩)

end Konnekt.Remote
