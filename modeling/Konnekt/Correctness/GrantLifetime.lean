import Konnekt.Correctness.RefreshFailure
import Konnekt.Run.Labelled

/-!
# How long an access token is good for

A bearer check looks at the token's own expiry and not at the end of its grant. The
check and the rule of pruning agree as long as no token is minted in the last hour
of a grant.
-/

namespace Konnekt.Remote

open Go

/-- The store of grants and the clock. -/
structure GrantConfig where
  auth : RemoteAuth := {}
  now : Nat := 0

/-- The calls on the store of grants, and time. -/
inductive GrantCall where
  | tick (elapsed : Nat)
  | issue (draws : Draws) (save : Option String) (client clientID redirect : String)
      (scopes : List String) (resource : String) (refresh : Bool)
  | refresh (draws : Draws) (save : Option String) (token clientID : String)
  | bearer (token resource : String)
  | revoke (save : Option String) (id : String)
  | revokeAll (save : Option String)
  /-- `Grants`, which prunes. -/
  | list

namespace GrantConfig

def after (c : GrantConfig) (r : Outcome × RemoteAuth) : Outcome × GrantConfig :=
  (r.1, { c with auth := r.2 })

end GrantConfig

variable (lib : Platform)

/-- `IssueGrant` and the exchange of a code, as an outcome. -/
def issueOutcome (r : Except String (String × RemoteTokens) × RemoteAuth) : Outcome × RemoteAuth :=
  (match r.1 with
    | .ok (id, tokens) => .issued id tokens
    | .error err => .failed err, r.2)

def GrantCall.act : GrantCall → GrantConfig → Outcome × GrantConfig
  | .tick elapsed, c => (.done, { c with now := c.now + elapsed })
  | .issue draws save client clientID redirect scopes resource both, c =>
    c.after (issueOutcome (c.auth.issueGrantLocked lib c.now draws save client clientID redirect
      scopes resource both))
  | .refresh draws save token clientID, c =>
    c.after (c.auth.refreshGrant lib c.now draws save token clientID)
  | .bearer token resource, c => c.after (c.auth.authorizeBearer lib c.now token resource)
  | .revoke save id, c => c.after (c.auth.revokeGrant save id)
  | .revokeAll save, c => c.after (c.auth.revokeGrants save)
  | .list, c => (.done, { c with auth := c.auth.pruneGrantsLocked c.now })

/-- The store and all that may happen to it. -/
def grantCalls : Labelled.System GrantConfig GrantCall Outcome where
  act := GrantCall.act lib
  enabled _ _ := True

abbrev GrantHistory := Labelled.History GrantConfig GrantCall

/-! ## What a call did -/

/-- A call created the grant. -/
def Creates (e : GrantConfig × GrantCall) (id : String) (tokens : RemoteTokens) : Prop :=
  (∃ draws save client clientID redirect scopes resource refresh,
    e.2 = .issue draws save client clientID redirect scopes resource refresh) ∧
  (grantCalls lib).answer e = .issued id tokens

/-- A call drew an access token for the grant: the one that created it, or a refresh of its
client. -/
def Mints (e : GrantConfig × GrantCall) (id access : String) : Prop :=
  (∃ tokens, Creates lib e id tokens ∧ tokens.access = access) ∨
  ∃ draws save token clientID i g, e.2 = .refresh draws save token clientID ∧
    Presented lib e.1.now token clientID e.1.auth i g ∧ g.id = id ∧ draws.token = .ok access

/-- A call on behalf of the grant's client. -/
def Uses (e : GrantConfig × GrantCall) (id : String) : Prop :=
  (∃ access, Mints lib e id access) ∨
  ∃ scopes, (grantCalls lib).answer e = .bearer id scopes

/-- A call revoked the grant, or all of them. -/
def Revokes (e : GrantConfig × GrantCall) (id : String) : Prop :=
  ((∃ save, e.2 = .revoke save id) ∨ ∃ save, e.2 = .revokeAll save) ∧
  (grantCalls lib).answer e = .done

/-- The ids of grants are drawn once. -/
def NewID (h : GrantHistory) (x : GrantCall) : Prop :=
  ∀ draws save client clientID redirect scopes resource refresh id,
    x = .issue draws save client clientID redirect scopes resource refresh → draws.id = .ok id →
    ∀ e ∈ h, ∀ tokens, ¬ Creates lib e id tokens

/-- No access token is minted in the last hour of a grant's ninety days. -/
def InTime (c : GrantConfig) (x : GrantCall) : Prop :=
  ∀ draws save token clientID i g, x = .refresh draws save token clientID →
    Presented lib c.now token clientID c.auth i g → (∃ access, draws.token = .ok access) →
    unix (c.now + remoteAccessTokenTTL) ≤ g.created + remoteGrantLifetime

/-- What an accepted token is: the latest one of a grant that was not revoked, within its hour,
the grant's ninety days and thirty days of a use. -/
structure Standing (h : GrantHistory) (now : Nat) (token id : String) : Prop where
  latest : ∃ newer e older access, h = newer ++ e :: older ∧ Mints lib e id access ∧
    lib.tokenHash access = lib.tokenHash token ∧ (∀ e' ∈ newer, ∀ access', ¬ Mints lib e' id access') ∧
    now < e.1.now + remoteAccessTokenTTL
  granted : ∃ newer e older tokens, h = newer ++ e :: older ∧ Creates lib e id tokens ∧
    (∀ e' ∈ newer, ¬ Revokes lib e' id) ∧ now < e.1.now + seconds remoteGrantLifetime
  used : ∃ e ∈ h, Uses lib e id ∧ now < e.1.now + seconds remoteGrantUnused

variable {lib} {h : GrantHistory} {c : GrantConfig} {x : GrantCall} {l l' : List GrantRecord}

/-! ## What the records remember -/

/-- A record that differs in its last use at most, as far as access tokens go. -/
structure SameToken (g g' : GrantRecord) : Prop where
  id : g'.id = g.id
  accessHash : g'.accessHash = g.accessHash
  accessExpires : g'.accessExpires = g.accessExpires
  created : g'.created = g.created

theorem SameToken.refl (g : GrantRecord) : SameToken g g := ⟨rfl, rfl, rfl, rfl⟩

/-- The calls a record comes from: the one that drew its token, with none for the grant since,
and the one that created it, with no revocation since. -/
structure Tracked (lib : Platform) (h : GrantHistory) (g : GrantRecord) : Prop where
  minted : ∃ newer e older access, h = newer ++ e :: older ∧ Mints lib e g.id access ∧
    g.accessHash = lib.tokenHash access ∧
    g.accessExpires = unix (e.1.now + remoteAccessTokenTTL) ∧
    ∀ e' ∈ newer, ∀ access', ¬ Mints lib e' g.id access'
  granted : ∃ newer e older tokens, h = newer ++ e :: older ∧ Creates lib e g.id tokens ∧
    g.created = unix e.1.now ∧ ∀ e' ∈ newer, ¬ Revokes lib e' g.id
  intime : g.accessExpires ≤ g.created + remoteGrantLifetime

/-- A call leaves a grant's token alone. -/
structure Quiet (lib : Platform) (e : GrantConfig × GrantCall) (id : String) : Prop where
  mints : ∀ access, ¬ Mints lib e id access
  revokes : ¬ Revokes lib e id

theorem Tracked.quiet {g g' : GrantRecord} {e : GrantConfig × GrantCall}
    (htracked : Tracked lib h g) (hsame : SameToken g g') (hquiet : Quiet lib e g.id) :
    Tracked lib (e :: h) g' := by
  obtain ⟨newer, m, older, access, rfl, hmints, hhash, hexpires, hlatest⟩ := htracked.minted
  obtain ⟨newer', k, older', tokens, heq, hcreates, hcreated, hunrevoked⟩ := htracked.granted
  refine ⟨⟨e :: newer, m, older, access, rfl, ?_, ?_, ?_, ?_⟩,
    ⟨e :: newer', k, older', tokens, ?_, ?_, ?_, ?_⟩, ?_⟩
  · rw [hsame.id]
    exact hmints
  · rw [hsame.accessHash, hhash]
  · rw [hsame.accessExpires, hexpires]
  · rw [hsame.id]
    intro e' he'
    obtain rfl | he' := List.mem_cons.1 he'
    · exact hquiet.mints
    · exact hlatest e' he'
  · rw [heq]
    rfl
  · rw [hsame.id]
    exact hcreates
  · rw [hsame.created, hcreated]
  · rw [hsame.id]
    intro e' he'
    obtain rfl | he' := List.mem_cons.1 he'
    · exact hquiet.revokes
    · exact hunrevoked e' he'
  · rw [hsame.accessExpires, hsame.created]
    exact htracked.intime

/-- What holds of the grants throughout a run. -/
structure Tracks (lib : Platform) (h : GrantHistory) (l : List GrantRecord) : Prop where
  ids : (l.map (·.id)).Nodup
  tracked : ∀ g ∈ l, Tracked lib h g

/-- A call that drops grants and leaves the tokens of the rest alone. -/
structure Drops (lib : Platform) (e : GrantConfig × GrantCall) (l l' : List GrantRecord) :
    Prop where
  ids : (l'.map (·.id)).Sublist (l.map (·.id))
  same : ∀ g' ∈ l', ∃ g ∈ l, SameToken g g'
  quiet : ∀ g' ∈ l', Quiet lib e g'.id

theorem Tracks.drops {e : GrantConfig × GrantCall} (htracks : Tracks lib h l)
    (hdrops : Drops lib e l l') : Tracks lib (e :: h) l' where
  ids := htracks.ids.sublist hdrops.ids
  tracked g' hg' := by
    obtain ⟨g, hg, hsame⟩ := hdrops.same g' hg'
    have hquiet := hdrops.quiet g' hg'
    rw [hsame.id] at hquiet
    exact (htracks.tracked g hg).quiet hsame hquiet

theorem drops_of_sublist {e : GrantConfig × GrantCall} (hsub : l'.Sublist l)
    (hquiet : ∀ g' ∈ l', Quiet lib e g'.id) : Drops lib e l l' where
  ids := hsub.map _
  same g' hg' := ⟨g', hsub.subset hg', .refl g'⟩
  quiet := hquiet

/-- Only issuing and refreshing draw tokens, and only revoking revokes. -/
theorem quiet_of_other {id : String}
    (hissue : ∀ draws save client clientID redirect scopes resource refresh,
      x ≠ .issue draws save client clientID redirect scopes resource refresh)
    (hrefresh : ∀ draws save token clientID, x ≠ .refresh draws save token clientID)
    (hrevoke : ¬ Revokes lib (c, x) id) : Quiet lib (c, x) id := by
  refine ⟨fun access hmints => ?_, hrevoke⟩
  obtain ⟨tokens, ⟨⟨draws, save, client, clientID, redirect, scopes, resource, refresh, hx⟩, -⟩, -⟩ |
    ⟨draws, save, token, clientID, i, g, hx, -⟩ := hmints
  · exact hissue _ _ _ _ _ _ _ _ hx
  · exact hrefresh _ _ _ _ hx

/-! ## What issuing does -/

/-- What issuing a grant does: it fails and adds none, or it adds one with the token it gives. -/
inductive IssueChange (lib : Platform) (now : Nat) (draws : Draws) (a : RemoteAuth) (o : Outcome)
    (a' : RemoteAuth) : Prop
  | failed {err : String} (ho : o = .failed err) (hsub : a'.state.grants.Sublist a.state.grants)
  | issued {g : GrantRecord} {tokens : RemoteTokens} (ho : o = .issued g.id tokens)
      (hid : draws.id = .ok g.id) (hcreated : g.created = unix now)
      (haccess : g.accessHash = lib.tokenHash tokens.access)
      (hexpires : g.accessExpires = unix (now + remoteAccessTokenTTL))
      (hafter : a'.state.grants = (a.pruneGrantsLocked now).state.grants ++ [g])

theorem issueGrant_change {a : RemoteAuth} {now : Nat} {draws : Draws} {save : Option String}
    (client clientID redirect : String) (scopes : List String) (resource : String) (both : Bool) :
    IssueChange lib now draws a
      (issueOutcome (a.issueGrantLocked lib now draws save client clientID redirect scopes resource
        both)).1
      (issueOutcome (a.issueGrantLocked lib now draws save client clientID redirect scopes resource
        both)).2 := by
  have hprune : (a.pruneGrantsLocked now).state.grants.Sublist a.state.grants :=
    List.filter_sublist
  unfold RemoteAuth.issueGrantLocked
  dsimp only
  split_ifs with hscopes hresource hfull
  · exact .failed rfl (List.Sublist.refl _)
  · exact .failed rfl (List.Sublist.refl _)
  · cases draws.id with
    | error e => exact .failed rfl (List.Sublist.refl _)
    | ok id => exact .failed rfl hprune
  cases hid : draws.id with
  | error e => exact .failed rfl (List.Sublist.refl _)
  | ok id =>
    dsimp only
    cases haccess : draws.token with
    | error e =>
      simp only [RemoteAuth.mintLocked, haccess]
      exact .failed rfl hprune
    | ok access =>
      simp only [RemoteAuth.mintLocked, haccess]
      cases both with
      | false =>
        simp only [Bool.not_false, if_true]
        cases save with
        | none => exact .issued rfl hid rfl rfl rfl rfl
        | some e => exact .failed rfl hprune
      | true =>
        cases hrefresh : draws.refresh with
        | error e => exact .failed rfl hprune
        | ok refresh =>
          cases save with
          | none => exact .issued rfl hid rfl rfl rfl rfl
          | some e => exact .failed rfl hprune

/-- What a bearer check does: it refuses, or it finds a grant by its token and counts the use. -/
inductive BearerChange (lib : Platform) (now : Nat) (token : String) (a : RemoteAuth) (o : Outcome)
    (a' : RemoteAuth) : Prop
  | refused {err : String} (ho : o = .failed err) (hafter : a' = a)
  | accepted {i : Nat} {g : GrantRecord} (hg : a.state.grants[i]? = some g)
      (htoken : g.accessHash = lib.tokenHash token) (hexpires : unix now < g.accessExpires)
      (ho : o = .bearer g.id g.scopes) (hafter : a' = a.setGrant i { g with lastUsed := unix now })

theorem authorizeBearer_change {a : RemoteAuth} {now : Nat} {token resource : String} :
    BearerChange lib now token a (a.authorizeBearer lib now token resource).1
      (a.authorizeBearer lib now token resource).2 := by
  unfold RemoteAuth.authorizeBearer
  split_ifs with hempty
  · exact .refused rfl rfl
  dsimp only
  cases hfound : a.state.grants.findIdx? (·.accessHash = lib.tokenHash token) with
  | none => exact .refused rfl rfl
  | some i =>
    obtain ⟨hlt, hhash, -⟩ := List.findIdx?_eq_some_iff_getElem.1 hfound
    have hg := List.getElem?_eq_getElem hlt
    simp only [hg]
    split_ifs with hrefused
    · exact .refused rfl rfl
    · rw [not_or, not_le] at hrefused
      exact .accepted hg (of_decide_eq_true hhash) hrefused.2 rfl rfl

/-! ## One call -/

section

variable {draws : Draws} {save : Option String}

theorem tracks_issue {client clientID redirect : String} {scopes : List String}
    {resource : String} {both : Bool} (htracks : Tracks lib h c.auth.state.grants)
    (hx : x = .issue draws save client clientID redirect scopes resource both)
    (hnew : NewID lib h x) :
    Tracks lib ((c, x) :: h) (x.act lib c).2.auth.state.grants := by
  have hchange : IssueChange lib c.now draws c.auth (x.act lib c).1 (x.act lib c).2.auth := by
    rw [hx]
    exact issueGrant_change client clientID redirect scopes resource both
  have hrevoke : ∀ id, ¬ Revokes lib (c, x) id := by
    rintro id ⟨⟨save', hx'⟩ | ⟨save', hx'⟩, -⟩
    · exact GrantCall.noConfusion (hx.symm.trans hx')
    · exact GrantCall.noConfusion (hx.symm.trans hx')
  have hmints : ∀ id access, Mints lib (c, x) id access →
      ∃ tokens, (x.act lib c).1 = .issued id tokens ∧ tokens.access = access := by
    rintro id access (⟨tokens, ⟨-, hanswer⟩, haccess⟩ |
      ⟨draws', save', token, clientID', i, g, hx', -⟩)
    · exact ⟨tokens, hanswer, haccess⟩
    · exact GrantCall.noConfusion (hx.symm.trans hx')
  cases hchange with
  | failed ho hsub =>
    refine htracks.drops (drops_of_sublist hsub fun g' _ => ⟨fun access hmint => ?_, hrevoke _⟩)
    obtain ⟨tokens, hanswer, -⟩ := hmints _ _ hmint
    rw [ho] at hanswer
    cases hanswer
  | @issued g tokens ho hid hcreated haccess hexpires hafter =>
    have hcreates : Creates lib (c, x) g.id tokens := ⟨⟨_, _, _, _, _, _, _, _, hx⟩, ho⟩
    have hothers : ∀ g' ∈ c.auth.state.grants, g'.id ≠ g.id := by
      intro g' hg' hsame
      obtain ⟨newer, e, older, tokens', rfl, hold, -⟩ := (htracks.tracked g' hg').granted
      rw [hsame] at hold
      exact hnew _ _ _ _ _ _ _ _ _ hx hid e (by simp) tokens' hold
    have hkept : Tracks lib ((c, x) :: h) (c.auth.pruneGrantsLocked c.now).state.grants := by
      refine htracks.drops (drops_of_sublist List.filter_sublist fun g' hg' =>
        ⟨fun access hmint => ?_, hrevoke _⟩)
      obtain ⟨tokens', hanswer, -⟩ := hmints _ _ hmint
      rw [ho] at hanswer
      exact hothers g' (List.mem_of_mem_filter hg') (Outcome.issued.inj hanswer).1.symm
    rw [hafter]
    constructor
    · rw [List.map_append, List.nodup_append]
      refine ⟨hkept.ids, by simp, ?_⟩
      intro id hid' id' hid''
      obtain ⟨g', hg', rfl⟩ := List.mem_map.1 hid'
      obtain rfl : id' = g.id := by simpa using hid''
      exact hothers g' (List.mem_of_mem_filter hg')
    · intro g' hg'
      obtain hg' | hg' := List.mem_append.1 hg'
      · exact hkept.tracked g' hg'
      · obtain rfl := List.mem_singleton.1 hg'
        refine ⟨⟨[], (c, x), h, tokens.access, rfl, .inl ⟨tokens, hcreates, rfl⟩, haccess, hexpires,
          by simp⟩, ⟨[], (c, x), h, tokens, rfl, hcreates, hcreated, by simp⟩, ?_⟩
        rw [hexpires, hcreated]
        unfold unix remoteAccessTokenTTL seconds remoteGrantLifetime
        omega

theorem tracks_refresh {token clientID : String} (htracks : Tracks lib h c.auth.state.grants)
    (hx : x = .refresh draws save token clientID) (htime : InTime lib c x) :
    Tracks lib ((c, x) :: h) (x.act lib c).2.auth.state.grants := by
  have hchange : RefreshChange lib c.now draws token clientID c.auth (x.act lib c).1
      (x.act lib c).2.auth := by
    rw [hx]
    exact refreshGrant_change
  have hrevoke : ∀ id, ¬ Revokes lib (c, x) id := by
    rintro id ⟨⟨save', hx'⟩ | ⟨save', hx'⟩, -⟩
    · exact GrantCall.noConfusion (hx.symm.trans hx')
    · exact GrantCall.noConfusion (hx.symm.trans hx')
  have hmints : ∀ id access, Mints lib (c, x) id access →
      ∃ i g, Presented lib c.now token clientID c.auth i g ∧ g.id = id ∧ draws.token = .ok access := by
    rintro id access (⟨tokens, ⟨⟨_, _, _, _, _, _, _, _, hx'⟩, -⟩, -⟩ |
      ⟨draws', save', token', clientID', i, g, hx', hpresented, hid, haccess⟩)
    · exact GrantCall.noConfusion (hx.symm.trans hx')
    · obtain ⟨rfl, rfl, rfl, rfl⟩ := GrantCall.refresh.inj (hx.symm.trans hx')
      exact ⟨i, g, hpresented, hid, haccess⟩
  cases hchange with
  | kept hempty hafter =>
    rw [hafter]
    refine htracks.drops (drops_of_sublist (List.Sublist.refl _) fun g' _ =>
      ⟨fun access hmint => ?_, hrevoke _⟩)
    obtain ⟨i, g, hpresented, -⟩ := hmints _ _ hmint
    exact hpresented.ne_empty hempty
  | pruned hundrawn hafter =>
    rw [hafter]
    refine htracks.drops (drops_of_sublist List.filter_sublist fun g' _ =>
      ⟨fun access hmint => ?_, hrevoke _⟩)
    obtain ⟨i, g, hpresented, -, haccess⟩ := hmints _ _ hmint
    exact hundrawn i g hpresented access haccess
  | replayed hother _ hafter =>
    rw [hafter]
    refine htracks.drops (drops_of_sublist ((List.eraseIdx_sublist _ _).trans List.filter_sublist)
      fun g' _ => ⟨fun access hmint => ?_, hrevoke _⟩)
    obtain ⟨i, g, hpresented, -⟩ := hmints _ _ hmint
    exact hother i g hpresented
  | @minted i g g' access hpresented haccess hminted hafter =>
    obtain ⟨hlt, hget⟩ := List.getElem?_eq_some_iff.1 hpresented.record
    have hmem : g ∈ c.auth.state.grants :=
      List.mem_of_mem_filter (List.mem_of_getElem? hpresented.record)
    have hstate : (x.act lib c).2.auth.state.grants =
        (c.auth.pruneGrantsLocked c.now).state.grants.set i g' := by
      rw [hafter]
      rfl
    have hnodup : ((c.auth.pruneGrantsLocked c.now).state.grants.map (·.id)).Nodup :=
      htracks.ids.sublist (List.filter_sublist.map _)
    -- the other grants are those before, without this one
    have hbefore := List.getElem_cons_eraseIdx_perm hlt
    have hafterPerm := List.set_perm_cons_eraseIdx hlt g'
    rw [hget] at hbefore
    rw [hstate]
    generalize hrest : (c.auth.pruneGrantsLocked c.now).state.grants.eraseIdx i = rest at *
    have hids : (g.id :: rest.map (·.id)).Nodup := (hbefore.map fun r : GrantRecord => r.id).nodup_iff.2 hnodup
    have hsub : rest.Sublist c.auth.state.grants := by
      rw [← hrest]
      exact (List.eraseIdx_sublist _ _).trans List.filter_sublist
    have hothers : ∀ r ∈ rest, r.id ≠ g.id := by
      intro r hr hsame
      exact (List.nodup_cons.1 hids).1 (hsame ▸ List.mem_map_of_mem hr)
    have hkept : Tracks lib ((c, x) :: h) rest := by
      refine htracks.drops (drops_of_sublist hsub fun r hr => ⟨fun access' hmint => ?_, hrevoke _⟩)
      obtain ⟨j, g₀, hpresented', hid, -⟩ := hmints _ _ hmint
      obtain rfl : j = i := Option.some.inj (hpresented'.found.symm.trans hpresented.found)
      obtain rfl : g₀ = g := Option.some.inj (hpresented'.record.symm.trans hpresented.record)
      exact hothers r hr hid.symm
    constructor
    · rw [(hafterPerm.map (·.id)).nodup_iff, List.map_cons, hminted.id]
      exact hids
    · intro r hr
      obtain rfl | hr := List.mem_cons.1 (hafterPerm.mem_iff.1 hr)
      · obtain ⟨newer, e, older, tokens, rfl, hcreates, hcreated, hunrevoked⟩ :=
          (htracks.tracked g hmem).granted
        refine ⟨⟨[], (c, x), newer ++ e :: older, access, rfl, ?_, hminted.accessHash,
          hminted.accessExpires, by simp⟩,
          ⟨(c, x) :: newer, e, older, tokens, rfl, ?_, ?_, ?_⟩, ?_⟩
        · exact .inr ⟨_, _, _, _, i, g, hx, hpresented, hminted.id.symm, haccess⟩
        · rw [hminted.id]
          exact hcreates
        · rw [hminted.created]
          exact hcreated
        · rw [hminted.id]
          intro e' he'
          obtain rfl | he' := List.mem_cons.1 he'
          · exact hrevoke _
          · exact hunrevoked e' he'
        · rw [hminted.accessExpires, hminted.created]
          exact htime _ _ _ _ i g hx hpresented ⟨access, haccess⟩
      · exact hkept.tracked r hr

theorem quiet_of_plain {id : String}
    (hplain : match x with
      | .tick _ | .bearer _ _ | .list => True
      | _ => False) : Quiet lib (c, x) id := by
  cases x with
  | tick | bearer | list =>
    refine quiet_of_other (fun _ _ _ _ _ _ _ _ => nofun) (fun _ _ _ _ => nofun) ?_
    rintro ⟨⟨_, hx⟩ | ⟨_, hx⟩, -⟩
    · cases hx
    · cases hx
  | issue | refresh | revoke | revokeAll => exact hplain.elim

theorem tracks_revoke {id : String} (htracks : Tracks lib h c.auth.state.grants) :
    Tracks lib ((c, .revoke save id) :: h)
      ((GrantCall.revoke save id).act lib c).2.auth.state.grants := by
  have hquiet : ∀ id', (((GrantCall.revoke save id).act lib c).1 = .done → id' ≠ id) →
      Quiet lib (c, .revoke save id) id' := by
    intro id' hne
    refine quiet_of_other (fun _ _ _ _ _ _ _ _ => nofun) (fun _ _ _ _ => nofun) ?_
    rintro ⟨⟨_, hx⟩ | ⟨_, hx⟩, hdone⟩
    · exact hne hdone (GrantCall.revoke.inj hx).2.symm
    · cases hx
  have hkept : ((GrantCall.revoke save id).act lib c).1 ≠ .done →
      Tracks lib ((c, .revoke save id) :: h) c.auth.state.grants := fun hfailed =>
    htracks.drops (drops_of_sublist (List.Sublist.refl _) fun _ _ =>
      hquiet _ fun hdone => absurd hdone hfailed)
  show Tracks lib _ (c.auth.revokeGrant save id).2.state.grants
  have hanswer : ((GrantCall.revoke save id).act lib c).1 = (c.auth.revokeGrant save id).1 := rfl
  rw [hanswer] at hkept
  unfold RemoteAuth.revokeGrant at hkept ⊢
  cases hfound : c.auth.state.grants.findIdx? (·.id = id) with
  | none =>
    simp only [hfound] at hkept
    exact hkept nofun
  | some i =>
    simp only [hfound] at hkept
    cases save with
    | some e => exact hkept nofun
    | none =>
      obtain ⟨hlt, hid, -⟩ := List.findIdx?_eq_some_iff_getElem.1 hfound
      have hperm := (List.getElem_cons_eraseIdx_perm hlt).map fun r : GrantRecord => r.id
      have hnodup := hperm.nodup_iff.2 htracks.ids
      refine htracks.drops (drops_of_sublist (List.eraseIdx_sublist _ _) fun g' hg' =>
        hquiet _ fun _ hsame => ?_)
      apply (List.nodup_cons.1 hnodup).1
      show c.auth.state.grants[i].id ∈ _
      rw [of_decide_eq_true hid, ← hsame]
      exact List.mem_map_of_mem hg'

theorem tracks_revokeAll (htracks : Tracks lib h c.auth.state.grants) :
    Tracks lib ((c, .revokeAll save) :: h)
      ((GrantCall.revokeAll save).act lib c).2.auth.state.grants := by
  show Tracks lib _ (c.auth.revokeGrants save).2.state.grants
  have hanswer : ((GrantCall.revokeAll save).act lib c).1 = (c.auth.revokeGrants save).1 := rfl
  have hempty : Tracks lib ((c, .revokeAll save) :: h) [] := ⟨List.nodup_nil, by simp⟩
  unfold RemoteAuth.revokeGrants at hanswer ⊢
  by_cases hnone : c.auth.state.grants = []
  · rw [if_pos hnone, hnone]
    exact hempty
  · rw [if_neg hnone] at hanswer ⊢
    cases save with
    | none => exact hempty
    | some e =>
      refine htracks.drops (drops_of_sublist (List.Sublist.refl _) fun g' _ =>
        quiet_of_other (fun _ _ _ _ _ _ _ _ => nofun) (fun _ _ _ _ => nofun) ?_)
      rintro ⟨-, hdone⟩
      exact Outcome.noConfusion (hanswer.symm.trans hdone)

theorem tracks_bearer {token resource : String} (htracks : Tracks lib h c.auth.state.grants) :
    Tracks lib ((c, .bearer token resource) :: h)
      ((GrantCall.bearer token resource).act lib c).2.auth.state.grants := by
  have hchange := @authorizeBearer_change lib c.auth c.now token resource
  show Tracks lib _ (c.auth.authorizeBearer lib c.now token resource).2.state.grants
  cases hchange with
  | refused _ hafter =>
    rw [hafter]
    exact htracks.drops (drops_of_sublist (List.Sublist.refl _) fun _ _ => quiet_of_plain trivial)
  | @accepted i g hg _ _ _ hafter =>
    obtain ⟨hlt, hget⟩ := List.getElem?_eq_some_iff.1 hg
    rw [hafter]
    refine htracks.drops ⟨?_, ?_, fun _ _ => quiet_of_plain trivial⟩
    · have hids : (c.auth.state.grants.set i { g with lastUsed := unix c.now }).map (·.id) =
          (c.auth.state.grants.set i g).map (·.id) := by
        rw [List.map_set, List.map_set]
      have hsame : c.auth.state.grants.set i g = c.auth.state.grants := by
        rw [← hget, List.set_getElem_self]
      rw [hsame] at hids
      show ((c.auth.state.grants.set i { g with lastUsed := unix c.now }).map (·.id)).Sublist _
      rw [hids]
    · intro g' hg'
      obtain hg' | rfl := List.mem_or_eq_of_mem_set hg'
      · exact ⟨g', hg', .refl g'⟩
      · exact ⟨g, List.mem_of_getElem? hg, rfl, rfl, rfl, rfl⟩

end

/-- What the records remember is kept by every call. -/
theorem tracks_act (htracks : Tracks lib h c.auth.state.grants) (hnew : NewID lib h x)
    (htime : InTime lib c x) : Tracks lib ((c, x) :: h) (x.act lib c).2.auth.state.grants := by
  cases x with
  | tick elapsed =>
    exact htracks.drops (drops_of_sublist (List.Sublist.refl _) fun _ _ => quiet_of_plain trivial)
  | issue draws save client clientID redirect scopes resource refresh =>
    exact tracks_issue htracks rfl hnew
  | refresh draws save token clientID => exact tracks_refresh htracks rfl htime
  | bearer token resource => exact tracks_bearer htracks
  | revoke save id => exact tracks_revoke htracks
  | revokeAll save => exact tracks_revokeAll htracks
  | list =>
    exact htracks.drops (drops_of_sublist List.filter_sublist fun _ _ => quiet_of_plain trivial)

/-- Throughout a run the grants remember the calls they come from. -/
theorem tracks_of_run
    (hrun : Labelled.Run (grantCalls lib) (fun h c x => NewID lib h x ∧ InTime lib c x) {} h c) :
    Tracks lib h c.auth.state.grants := by
  apply hrun.invariant (P := fun h c => Tracks lib h c.auth.state.grants)
  · exact ⟨List.nodup_nil, by simp⟩
  · intro h c x _ htracks _ hallowed
    exact tracks_act htracks hallowed.1 hallowed.2

/-- In a run without a token minted in the last hour of a grant, an accepted token is within its
hour and its grant's ninety and thirty days. -/
theorem standing_of_authorizeBearer {lib : Platform} {h : GrantHistory} {c : GrantConfig}
    (hrun : Labelled.Run (grantCalls lib) (fun h c x => NewID lib h x ∧ InTime lib c x) {} h c)
    {token resource id : String} {scopes : List String}
    (haccepts : (c.auth.authorizeBearer lib c.now token resource).1 = .bearer id scopes) :
    Standing lib h c.now token id := by
  have hchange := @authorizeBearer_change lib c.auth c.now token resource
  rw [haccepts] at hchange
  cases hchange with
  | refused ho => cases ho
  | accepted hg htoken hexpires ho hafter =>
    cases ho
    have htracked := (tracks_of_run hrun).tracked _ (List.mem_of_getElem? hg)
    obtain ⟨newer, e, older, access, rfl, hmints, hhash, hexpiry, hlatest⟩ := htracked.minted
    obtain ⟨newer', e', older', tokens, heq, hcreates, hcreated, hunrevoked⟩ := htracked.granted
    have hintime := htracked.intime
    rw [hexpiry] at hexpires hintime
    rw [hcreated] at hintime
    refine ⟨⟨newer, e, older, access, rfl, hmints, hhash.symm.trans htoken, hlatest, ?_⟩,
      ⟨newer', e', older', tokens, heq, hcreates, hunrevoked, ?_⟩,
      ⟨e, by simp, .inl ⟨access, hmints⟩, ?_⟩⟩
    · unfold unix remoteAccessTokenTTL seconds at *
      omega
    · unfold unix remoteAccessTokenTTL seconds at *
      omega
    · unfold unix remoteAccessTokenTTL seconds remoteGrantUnused at *
      omega

/-! ## A token of the last hour -/

/-- A connector signs in with both tokens. -/
def signInCall : GrantCall :=
  .issue { id := .ok "g", token := .ok "a0", refresh := .ok "r0" } none "Claude" "c" "claude.ai"
    [remoteScopeRead] "https://k.example/mcp" true

/-- The connector refreshes. -/
def refreshCall (old access new : String) : GrantCall :=
  .refresh { token := .ok access, refresh := .ok new } none old "c"

def days (n : Nat) : Nat := seconds (n * 24 * 3600)

/-- A grant that is refreshed every 29 days and half an hour before its ninety days end, the
last call first. -/
def lateCalls : List GrantCall :=
  [.tick (seconds 1860), refreshCall "r3" "a4" "r4", .tick (days 3 - seconds 1800),
    refreshCall "r2" "a3" "r3", .tick (days 29), refreshCall "r1" "a2" "r2", .tick (days 29),
    refreshCall "r0" "a1" "r1", .tick (days 29), signInCall]

private theorem newID_of_refresh {h : GrantHistory} (old access new : String) :
    NewID plainPlatform h (refreshCall old access new) := by
  intro _ _ _ _ _ _ _ _ _ hissue
  cases hissue

private theorem newID_of_tick {h : GrantHistory} (elapsed : Nat) :
    NewID plainPlatform h (.tick elapsed) := by
  intro _ _ _ _ _ _ _ _ _ hissue
  cases hissue

private theorem newID_of_first (x : GrantCall) : NewID plainPlatform [] x := by
  intro _ _ _ _ _ _ _ _ _ _ _ e he
  cases he

/-- The token is accepted although the grant's ninety days are over. -/
theorem not_standing_of_authorizeBearer : ∃ h c,
    Labelled.Run (grantCalls plainPlatform) (fun h _ x => NewID plainPlatform h x) {} h c ∧
      (c.auth.authorizeBearer plainPlatform c.now "a4" "https://k.example/mcp").1 =
        .bearer "g" [remoteScopeRead] ∧
      ¬ Standing plainPlatform h c.now "a4" "g" := by
  have hplay : (grantCalls plainPlatform).Playable (fun h _ x => NewID plainPlatform h x) {}
      lateCalls :=
    ⟨⟨⟨⟨⟨⟨⟨⟨⟨⟨trivial, trivial, newID_of_first _⟩, trivial, newID_of_tick _⟩, trivial,
      newID_of_refresh _ _ _⟩, trivial, newID_of_tick _⟩, trivial, newID_of_refresh _ _ _⟩, trivial,
      newID_of_tick _⟩, trivial, newID_of_refresh _ _ _⟩, trivial, newID_of_tick _⟩, trivial,
      newID_of_refresh _ _ _⟩, trivial, newID_of_tick _⟩
  refine ⟨_, _, hplay.run, by decide +kernel, fun hstanding => ?_⟩
  obtain ⟨newer, e, older, tokens, heq, ⟨⟨_, _, _, _, _, _, _, _, hissue⟩, -⟩, -, hwithin⟩ :=
    hstanding.granted
  have hmem : e ∈ ((grantCalls plainPlatform).play {} lateCalls).1 := by
    rw [heq]
    simp
  -- the only grant was created at the start
  have hstart : ((grantCalls plainPlatform).play {} lateCalls).1.all (fun e => match e.2 with
      | .issue .. => e.1.now == 0
      | _ => true) = true := by
    decide +kernel
  have hnow := List.all_eq_true.1 hstart e hmem
  rw [hissue] at hnow
  rw [beq_iff_eq.1 hnow] at hwithin
  exact absurd hwithin (by decide +kernel)

/-- A token that was just given out is within its hour. -/
theorem standing_of_authorizeBearer_fresh : ∃ (h : GrantHistory) (c : GrantConfig),
    (c.auth.authorizeBearer plainPlatform c.now "a0" "https://k.example/mcp").1 =
        .bearer "g" [remoteScopeRead] ∧ Standing plainPlatform h c.now "a0" "g" := by
  have hplay : (grantCalls plainPlatform).Playable
      (fun h c x => NewID plainPlatform h x ∧ InTime plainPlatform c x) {} [signInCall] :=
    ⟨trivial, trivial, newID_of_first _, nofun⟩
  have haccepts : (((grantCalls plainPlatform).play {} [signInCall]).2.auth.authorizeBearer
      plainPlatform 0 "a0" "https://k.example/mcp").1 = .bearer "g" [remoteScopeRead] := by
    decide +kernel
  exact ⟨_, _, haccepts, standing_of_authorizeBearer hplay.run haccepts⟩

end Konnekt.Remote
