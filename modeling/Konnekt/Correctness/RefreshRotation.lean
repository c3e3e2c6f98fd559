import Konnekt.Remote.Rotation

/-!
# Refresh tokens

A grant's refresh token is replaced by every exchange. A token is exchanged at most
once, and only the one given out last can be. The one replaced last is remembered:
presented again, it ends its grant. One replaced before that is forgotten.
-/

namespace Konnekt.Remote

open Go List

variable {lib : Platform} {h : History} {c : Config} {l l' : List GrantRecord}

/-! ## The records -/

/-- No two grants share an id or a refresh token, and none remembers a token that can be
exchanged. -/
structure Shape (lib : Platform) (h : History) (l : List GrantRecord) : Prop where
  ids : (l.map GrantRecord.id).Nodup
  refreshes : (l.map GrantRecord.refreshHash).Nodup
  disjoint : ∀ g ∈ l, ∀ g' ∈ l, g.prevRefreshHash ≠ g'.refreshHash
  known : ∀ g ∈ l, g.Known lib h
  prev : ∀ g ∈ l, g.prevRefreshHash = "" ∨ Drawn lib h g.prevRefreshHash

theorem nodup_of_subperm {f : GrantRecord → String} (hsub : l' <+~ l) (hl : (l.map f).Nodup) :
    (l'.map f).Nodup := by
  obtain ⟨l₀, hperm, hsub⟩ := hsub
  exact (hperm.map f).nodup_iff.1 (hl.sublist (hsub.map f))

namespace Shape

theorem empty : Shape lib [] [] where
  ids := nodup_nil
  refreshes := nodup_nil
  disjoint _ hg := by cases hg
  known _ hg := by cases hg
  prev _ hg := by cases hg

theorem subperm (hshape : Shape lib h l) (hsub : l' <+~ l) : Shape lib h l' where
  ids := nodup_of_subperm hsub hshape.ids
  refreshes := nodup_of_subperm hsub hshape.refreshes
  disjoint g hg g' hg' := hshape.disjoint g (hsub.subset hg) g' (hsub.subset hg')
  known g hg := hshape.known g (hsub.subset hg)
  prev g hg := hshape.prev g (hsub.subset hg)

theorem cons (hshape : Shape lib h l) (e : Config × Action) : Shape lib (e :: h) l :=
  { hshape with
    known := fun g hg => (hshape.known g hg).cons e
    prev := fun g hg => (hshape.prev g hg).imp_right fun hdrawn => hdrawn.cons e }

/-- A refresh token that no grant has or remembers, with its grant. -/
theorem insert {g : GrantRecord} (hshape : Shape lib h l) (hg : g.Known lib h)
    (hprev : g.prevRefreshHash = "" ∨ Drawn lib h g.prevRefreshHash)
    (hself : g.prevRefreshHash ≠ g.refreshHash) (hid : ∀ r ∈ l, r.id ≠ g.id)
    (hnew : ∀ r ∈ l, r.refreshHash ≠ g.refreshHash ∧ r.prevRefreshHash ≠ g.refreshHash)
    (hold : ∀ r ∈ l, g.prevRefreshHash ≠ r.refreshHash) : Shape lib h (g :: l) where
  ids := by
    refine nodup_cons.2 ⟨fun hmem => ?_, hshape.ids⟩
    obtain ⟨r, hr, hsame⟩ := mem_map.1 hmem
    exact hid r hr hsame
  refreshes := by
    refine nodup_cons.2 ⟨fun hmem => ?_, hshape.refreshes⟩
    obtain ⟨r, hr, hsame⟩ := mem_map.1 hmem
    exact (hnew r hr).1 hsame
  disjoint r hr r' hr' := by
    obtain rfl | hmem := mem_cons.1 hr <;> obtain rfl | hmem' := mem_cons.1 hr'
    · exact hself
    · exact hold r' hmem'
    · exact (hnew r hmem).2
    · exact hshape.disjoint r hmem r' hmem'
  known r hr := by
    obtain rfl | hmem := mem_cons.1 hr
    · exact hg
    · exact hshape.known r hmem
  prev r hr := by
    obtain rfl | hmem := mem_cons.1 hr
    · exact hprev
    · exact hshape.prev r hmem

/-- The other grants differ from one of them. -/
theorem others {g : GrantRecord} (hshape : Shape lib h (g :: l)) :
    Shape lib h l ∧ ∀ r ∈ l, r.id ≠ g.id ∧ r.refreshHash ≠ g.refreshHash := by
  refine ⟨hshape.subperm Subperm.cons_self, fun r hr => ⟨?_, ?_⟩⟩
  · intro hsame
    exact (nodup_cons.1 hshape.ids).1 (hsame ▸ mem_map_of_mem hr)
  · intro hsame
    exact (nodup_cons.1 hshape.refreshes).1 (hsame ▸ mem_map_of_mem hr)

/-- Names drawn by a call differ from those the grants had. -/
theorem new {x : Action} (hshape : Shape lib h l) (hfresh : Fresh lib h x) {y : String}
    (hy : y ∈ x.draws.drawn lib) :
    ∀ r ∈ l, r.id ≠ y ∧ r.refreshHash ≠ y ∧ r.prevRefreshHash ≠ y := by
  intro r hr
  refine ⟨hfresh.ne hy (hshape.known r hr).id, hfresh.ne hy (hshape.known r hr).refresh, ?_⟩
  obtain hnone | hdrawn := hshape.prev r hr
  · rw [hnone]
    exact (hfresh.token y hy).symm
  · exact hfresh.ne hy hdrawn

theorem change {e : Config × Action} {now : Nat} (hshape : Shape lib h l)
    (hfresh : Fresh lib h e.2) (hnonempty : ∀ y, Drawn lib h y → y ≠ "")
    (hchange : GrantChange lib now e.2 ((calls lib).answer e) l l') : Shape lib (e :: h) l' := by
  cases hchange with
  | kept _ hsub => exact (hshape.cons e).subperm hsub
  | @added entry draws save r tokens id hx _ hid htokens hsub =>
    have hdraws : e.2.draws = draws := by rw [hx]; rfl
    rw [← hdraws] at hid htokens
    refine ((hshape.cons e).insert ?_ (.inl rfl) ?_ ?_ ?_ ?_).subperm hsub
    · exact ⟨drawn_head (Draws.mem_id hid), drawn_head (Draws.mem_token htokens.access),
        drawn_head (Draws.mem_refresh htokens.refresh)⟩
    · exact (hfresh.token _ (Draws.mem_refresh htokens.refresh)).symm
    · exact fun r hr => (hshape.new hfresh (Draws.mem_id hid) r hr).1
    · exact fun r hr => (hshape.new hfresh (Draws.mem_refresh htokens.refresh) r hr).2
    · exact fun r hr => (hnonempty _ (hshape.known r hr).refresh).symm
  | @renewed g rest access _ haccess hbefore hsub =>
    have hboth := (hshape.subperm hbefore).cons e
    obtain ⟨hrest, hothers⟩ := hboth.others
    have hg := hboth.known g mem_cons_self
    refine (hrest.insert (g := g.renewed lib now access) ?_ (hboth.prev g mem_cons_self) ?_ ?_ ?_
      ?_).subperm hsub
    · exact ⟨hg.id, drawn_head (Draws.mem_token haccess), hg.refresh⟩
    · exact hboth.disjoint g mem_cons_self g mem_cons_self
    · exact fun r hr => (hothers r hr).1
    · exact fun r hr =>
        ⟨(hothers r hr).2, hboth.disjoint r (mem_cons_of_mem g hr) g mem_cons_self⟩
    · exact fun r hr => hboth.disjoint g mem_cons_self r (mem_cons_of_mem g hr)
  | @rotated g rest draws save token clientID tokens hx _ _ htokens _ hbefore hsub =>
    have hdraws : e.2.draws = draws := by rw [hx]; rfl
    rw [← hdraws] at htokens
    have hboth := hshape.subperm hbefore
    obtain ⟨hrest, hothers⟩ := hboth.others
    have hg := (hboth.known g mem_cons_self).cons e
    have hnew := hboth.new hfresh (Draws.mem_refresh htokens.refresh)
    refine ((hrest.cons e).insert ?_ (.inr hg.refresh) ?_ ?_ ?_ ?_).subperm hsub
    · exact ⟨hg.id, drawn_head (Draws.mem_token htokens.access),
        drawn_head (Draws.mem_refresh htokens.refresh)⟩
    · exact (hnew g mem_cons_self).2.1
    · exact fun r hr => (hothers r hr).1
    · exact fun r hr => (hnew r (mem_cons_of_mem g hr)).2
    · exact fun r hr => (hothers r hr).2.symm

end Shape

/-! ## What the tokens given out became -/

/-- A call gives out tokens of a grant. -/
def Issues (lib : Platform) (e : Config × Action) (grant : String) (tokens : RemoteTokens) : Prop :=
  (calls lib).answer e = .issued grant tokens

/-- A call exchanges a refresh token for new tokens. -/
def Exchanges (lib : Platform) (e : Config × Action) (token clientID grant : String)
    (tokens : RemoteTokens) : Prop :=
  (∃ draws save, e.2 = .refresh draws save token clientID) ∧ Issues lib e grant tokens

/-- What a history means for the grants there are. -/
structure Past (lib : Platform) (h : History) (l : List GrantRecord) : Prop where
  issued : ∀ e ∈ h, ∀ grant tokens, Issues lib e grant tokens → Drawn lib h grant ∧
    Drawn lib h (lib.tokenHash tokens.access) ∧ Drawn lib h (lib.tokenHash tokens.refresh) ∧
    ∀ g ∈ l, g.accessHash = lib.tokenHash tokens.access ∨
      g.refreshHash = lib.tokenHash tokens.refresh → g.id = grant
  spent : ∀ e ∈ h, ∀ token clientID grant tokens, Exchanges lib e token clientID grant tokens →
    Drawn lib h (lib.tokenHash token) ∧ (∀ g ∈ l, g.refreshHash ≠ lib.tokenHash token) ∧
    ∀ g ∈ l, g.prevRefreshHash = lib.tokenHash token → g.id = grant
  superseded : ∀ e₂ e₁ grant tokens tokens', [e₂, e₁] <+ h → Issues lib e₁ grant tokens →
    Issues lib e₂ grant tokens' → ∀ g ∈ l, g.refreshHash ≠ lib.tokenHash tokens.refresh
  forgotten : ∀ e₂ e₁ token clientID clientID' grant tokens grant' tokens', [e₂, e₁] <+ h →
    Exchanges lib e₁ token clientID grant tokens →
    Exchanges lib e₂ tokens.refresh clientID' grant' tokens' →
    ∀ g ∈ l, g.prevRefreshHash ≠ lib.tokenHash token

/-- Two entries of a history, one of them perhaps the last. -/
theorem pair_sublist {e e₂ e₁ : Config × Action} (hsub : [e₂, e₁] <+ e :: h) :
    [e₂, e₁] <+ h ∨ e₂ = e ∧ e₁ ∈ h := by
  cases hsub with
  | cons _ hsub => exact .inl hsub
  | cons_cons _ hsub => exact .inr ⟨rfl, singleton_sublist.1 hsub⟩

/-- Exchanging a refresh token rotates the grant that has it. -/
theorem rotated_of_issues {e : Config × Action} {now : Nat} {grant : String}
    {tokens : RemoteTokens} (hshape : Shape lib h l)
    (hchange : GrantChange lib now e.2 ((calls lib).answer e) l l')
    (hissues : Issues lib e grant tokens) :
    tokens.From e.2.draws ∧
    ((∃ draws save r, e.2 = .exchange draws save r) ∧ e.2.draws.id = .ok grant ∧
      (∀ g ∈ l', g ∈ l ∨ g.id = grant) ∨
    ∃ g ∈ l, ∃ draws save token, e.2 = .refresh draws save token g.clientID ∧ g.id = grant ∧
      g.refreshHash = lib.tokenHash token ∧
      ∀ r ∈ l', r = g.rotated lib now tokens ∨
        r ∈ l ∧ r.id ≠ g.id ∧ r.refreshHash ≠ g.refreshHash) := by
  cases hchange with
  | kept hplain => exact absurd hissues (hplain grant tokens)
  | renewed hplain => exact absurd hissues (hplain grant tokens)
  | added hx ho hid htokens hsub =>
    obtain ⟨rfl, rfl⟩ := Outcome.issued.inj (hissues.symm.trans ho)
    have hdraws := congrArg Action.draws hx
    refine ⟨hdraws ▸ htokens, .inl ⟨⟨_, _, _, hx⟩, hdraws ▸ hid, fun g hg => ?_⟩⟩
    obtain rfl | hmem := mem_cons.1 (hsub.subset hg)
    · exact .inr rfl
    · exact .inl hmem
  | rotated hx htoken hclient htokens ho hbefore hsub =>
    obtain ho | ⟨_, ho⟩ := ho
    · obtain ⟨rfl, rfl⟩ := Outcome.issued.inj (hissues.symm.trans ho)
      have hdraws := congrArg Action.draws hx
      subst hclient
      refine ⟨hdraws ▸ htokens, .inr ⟨_, hbefore.subset mem_cons_self, _, _, _, hx, rfl, htoken,
        fun r hr => ?_⟩⟩
      obtain rfl | hmem := mem_cons.1 (hsub.subset hr)
      · exact .inl rfl
      · exact .inr ⟨hbefore.subset (mem_cons_of_mem _ hmem),
          (hshape.subperm hbefore).others.2 r hmem⟩
    · cases hissues.symm.trans ho

namespace Past

theorem empty : Past lib [] [] where
  issued _ he := by cases he
  spent _ he := by cases he
  superseded _ _ _ _ _ hsub := by cases hsub
  forgotten _ _ _ _ _ _ _ _ _ hsub := by cases hsub

theorem change {e : Config × Action} {now : Nat} (hpast : Past lib h l) (hshape : Shape lib h l)
    (hfresh : Fresh lib h e.2) (hnonempty : ∀ y, Drawn lib h y → y ≠ "")
    (hchange : GrantChange lib now e.2 ((calls lib).answer e) l l') : Past lib (e :: h) l' := by
  refine ⟨?_, ?_, ?_, ?_⟩
  · intro e' he grant tokens hissues
    obtain rfl | hmem := mem_cons.1 he
    · obtain ⟨htokens, hrotates⟩ := rotated_of_issues hshape hchange hissues
      have haccess := @Draws.mem_token lib _ _ htokens.access
      have hrefresh := @Draws.mem_refresh lib _ _ htokens.refresh
      have hother : ∀ g ∈ l, ¬ (g.accessHash = lib.tokenHash tokens.access ∨
          g.refreshHash = lib.tokenHash tokens.refresh) := by
        rintro g hg (hhas | hhas)
        · exact hfresh.ne haccess (hshape.known g hg).access hhas
        · exact hfresh.ne hrefresh (hshape.known g hg).refresh hhas
      obtain ⟨_, hid, hleft⟩ | ⟨g, hg, _, _, _, _, rfl, _, hleft⟩ := hrotates
      · refine ⟨drawn_head (Draws.mem_id hid), drawn_head haccess, drawn_head hrefresh,
          fun r hr hhas => ?_⟩
        exact (hleft r hr).resolve_left fun hold => hother r hold hhas
      · refine ⟨(hshape.known g hg).id.cons e', drawn_head haccess, drawn_head hrefresh,
          fun r hr hhas => ?_⟩
        obtain rfl | ⟨hold, _⟩ := hleft r hr
        · rfl
        · exact absurd hhas (hother r hold)
    · obtain ⟨hgrant, haccess, hrefresh, howned⟩ := hpast.issued e' hmem grant tokens hissues
      exact ⟨hgrant.cons e, haccess.cons e, hrefresh.cons e,
        owned_of_grantChange hchange hfresh haccess hrefresh howned⟩
  · intro e' he token clientID grant tokens hexchanges
    obtain rfl | hmem := mem_cons.1 he
    · obtain ⟨⟨_, _, hx⟩, hissues⟩ := hexchanges
      obtain ⟨htokens, ⟨⟨_, _, _, hx'⟩, _⟩ | ⟨g, hg, _, _, _, hx', rfl, htoken, hleft⟩⟩ :=
        rotated_of_issues hshape hchange hissues
      · cases hx.symm.trans hx'
      obtain ⟨_, _, rfl, _⟩ := Action.refresh.inj (hx.symm.trans hx')
      rw [← htoken]
      refine ⟨(hshape.known g hg).refresh.cons e', fun r hr => ?_, fun r hr hprev => ?_⟩
      · obtain rfl | ⟨_, _, hne⟩ := hleft r hr
        · exact (hfresh.ne (Draws.mem_refresh htokens.refresh) (hshape.known g hg).refresh).symm
        · exact hne
      · obtain rfl | ⟨hold, _⟩ := hleft r hr
        · rfl
        · exact absurd hprev (hshape.disjoint r hold g hg)
    · obtain ⟨htoken, hout, hprev⟩ := hpast.spent e' hmem token clientID grant tokens hexchanges
      exact ⟨htoken.cons e, out_of_grantChange hchange hfresh htoken hout,
        spent_of_grantChange (P := (· = grant)) hchange hfresh (hnonempty _ htoken) hout hprev⟩
  · intro e₂ e₁ grant tokens tokens' hsub hissues hissues'
    obtain hsub | ⟨rfl, hmem⟩ := pair_sublist hsub
    · have hout := hpast.superseded e₂ e₁ grant tokens tokens' hsub hissues hissues'
      have hrefresh := (hpast.issued e₁ (hsub.subset (by simp)) grant tokens hissues).2.2.1
      exact out_of_grantChange hchange hfresh hrefresh hout
    · obtain ⟨hgrant, _, hrefresh, howned⟩ := hpast.issued e₁ hmem grant tokens hissues
      obtain ⟨htokens, ⟨_, hid, _⟩ | ⟨g, hg, _, _, _, _, rfl, _, hleft⟩⟩ :=
        rotated_of_issues hshape hchange hissues'
      · exact absurd hgrant (hfresh.not_drawn (Draws.mem_id hid))
      intro r hr hhas
      obtain rfl | ⟨hold, hne, _⟩ := hleft r hr
      · exact hfresh.ne (Draws.mem_refresh htokens.refresh) hrefresh hhas.symm
      · exact hne (howned r hold (.inr hhas))
  · intro e₂ e₁ token clientID clientID' grant tokens grant' tokens' hsub hexchanges hexchanges'
    obtain hsub | ⟨rfl, hmem⟩ := pair_sublist hsub
    · have hlost := hpast.forgotten e₂ e₁ token clientID clientID' grant tokens grant' tokens' hsub
        hexchanges hexchanges'
      obtain ⟨htoken, hout, _⟩ :=
        hpast.spent e₁ (hsub.subset (by simp)) token clientID grant tokens hexchanges
      exact spent_of_grantChange (P := fun _ => False) hchange hfresh (hnonempty _ htoken) hout hlost
    · obtain ⟨_, hout, hprev⟩ := hpast.spent e₁ hmem token clientID grant tokens hexchanges
      obtain ⟨_, _, _, howned⟩ := hpast.issued e₁ hmem grant tokens hexchanges.2
      obtain ⟨⟨_, _, hx⟩, hissues⟩ := hexchanges'
      obtain ⟨_, ⟨⟨_, _, _, hx'⟩, _⟩ | ⟨g, hg, _, _, _, hx', _, htoken, hleft⟩⟩ :=
        rotated_of_issues hshape hchange hissues
      · cases hx.symm.trans hx'
      obtain ⟨_, _, rfl, _⟩ := Action.refresh.inj (hx.symm.trans hx')
      intro r hr hlast
      obtain rfl | ⟨hold, hne, _⟩ := hleft r hr
      · exact hout g hg hlast
      · exact hne ((hprev r hold hlast).trans (howned g hg (.inr htoken)).symm)

end Past

/-- What a run keeps of its grants. -/
theorem past_of_run (hrun : Labelled.Run (calls lib) (fun h _ x => Fresh lib h x) {} h c) :
    Shape lib h c.auth.cores ∧ Past lib h c.auth.cores := by
  refine hrun.invariant (P := fun h c => Shape lib h c.auth.cores ∧ Past lib h c.auth.cores)
    ⟨.empty, .empty⟩ ?_
  intro h c x hrun ⟨hshape, hpast⟩ _ hfresh
  have hnonempty : ∀ y, Drawn lib h y → y ≠ "" :=
    fun _ hy => drawn_ne_empty hrun (fun _ _ _ hallowed => hallowed) hy
  have hchange : GrantChange lib c.now (c, x).2 ((calls lib).answer (c, x)) c.auth.cores
      (x.act lib c).2.auth.cores := grants_of_change (change_act x c)
  exact ⟨hshape.change hfresh hnonempty hchange, hpast.change hshape hfresh hnonempty hchange⟩

/-! ## What a token is good for -/

/-- A refresh token some client can exchange now. -/
def Exchangeable (lib : Platform) (c : Config) (token : String) : Prop :=
  ∃ draws save clientID grant tokens,
    (c.auth.refreshGrant lib c.now draws save token clientID).1 = .issued grant tokens

/-- An access token that is accepted now, for some resource. -/
def Accepted (lib : Platform) (c : Config) (token : String) : Prop :=
  ∃ resource grant scopes,
    (c.auth.authorizeBearer lib c.now token resource).1 = .bearer grant scopes

theorem mem_of_exchangeable {token : String} (hgood : Exchangeable lib c token) :
    ∃ g ∈ c.auth.cores, g.refreshHash = lib.tokenHash token := by
  obtain ⟨draws, save, clientID, grant, tokens, hanswer⟩ := hgood
  have hchange : Change lib c.now (.refresh draws save token clientID) c.auth _ _ :=
    RemoteAuth.change_refresh token clientID
  rw [hanswer] at hchange
  cases grants_of_change hchange with
  | kept hplain => exact absurd rfl (hplain grant tokens)
  | renewed hplain => exact absurd rfl (hplain grant tokens)
  | added hx => cases hx
  | rotated hx htoken _ _ _ hbefore =>
    cases hx
    exact ⟨_, hbefore.subset mem_cons_self, htoken⟩

theorem mem_of_accepted {token : String} (hgood : Accepted lib c token) :
    ∃ g ∈ c.auth.cores, g.accessHash = lib.tokenHash token := by
  obtain ⟨resource, grant, scopes, hanswer⟩ := hgood
  unfold RemoteAuth.authorizeBearer at hanswer
  split_ifs at hanswer
  dsimp only at hanswer
  split at hanswer
  · cases hanswer
  next i hi =>
  obtain ⟨hlt, hhash, _⟩ := List.findIdx?_eq_some_iff_getElem.1 hi
  exact ⟨_, List.mem_map_of_mem (List.getElem_mem hlt), of_decide_eq_true hhash⟩

/-! ## A token presented again -/

/-- A grant whose record, if there is one, has just replaced a token. -/
def Holding (lib : Platform) (token clientID grant : String) (tokens : RemoteTokens)
    (l : List GrantRecord) : Prop :=
  ∀ g ∈ l, g.id = grant → g.prevRefreshHash = lib.tokenHash token ∧
    g.refreshHash = lib.tokenHash tokens.refresh ∧ g.clientID = clientID

/-- A call presents a refresh token as some client. -/
def Presents (e : Config × Action) (token clientID : String) : Prop :=
  ∃ draws save, e.2 = .refresh draws save token clientID

theorem holding_of_exchange {e : Config × Action} {now : Nat} {token clientID grant : String}
    {tokens : RemoteTokens} (hshape : Shape lib h l)
    (hchange : GrantChange lib now e.2 ((calls lib).answer e) l l')
    (hexchanges : Exchanges lib e token clientID grant tokens) :
    Holding lib token clientID grant tokens l' := by
  obtain ⟨⟨_, _, hx⟩, hissues⟩ := hexchanges
  obtain ⟨_, ⟨⟨_, _, _, hx'⟩, _⟩ | ⟨g, _, _, _, _, hx', rfl, htoken, hleft⟩⟩ :=
    rotated_of_issues hshape hchange hissues
  · cases hx.symm.trans hx'
  obtain ⟨_, _, rfl, rfl⟩ := Action.refresh.inj (hx.symm.trans hx')
  intro r hr hid
  obtain rfl | ⟨_, hne, _⟩ := hleft r hr
  · exact ⟨htoken, rfl, rfl⟩
  · exact absurd hid hne

theorem holding_of_grantChange {e : Config × Action} {now : Nat} {token clientID grant : String}
    {tokens : RemoteTokens} (hfresh : Fresh lib h e.2) (hgrant : Drawn lib h grant)
    (hchange : GrantChange lib now e.2 ((calls lib).answer e) l l')
    (hpresents : ∀ token', lib.tokenHash token' = lib.tokenHash tokens.refresh →
      ¬ Presents e token' clientID)
    (hholding : Holding lib token clientID grant tokens l) :
    Holding lib token clientID grant tokens l' := by
  intro g' hg' hid
  obtain hmem | ⟨g, hmem, _, _, rfl⟩ | ⟨g, hmem, _, _, token', _, hx, htoken', _, rfl⟩ |
      ⟨_, _, hnew, _⟩ := mem_of_grantChange hchange hg'
  · exact hholding g' hmem hid
  · exact hholding g hmem hid
  · obtain ⟨_, hrefresh, hclient⟩ := hholding g hmem hid
    rw [hclient] at hx
    exact absurd ⟨_, _, hx⟩ (hpresents token' (htoken'.symm.trans hrefresh))
  · exact absurd hid (hfresh.ne (Draws.mem_id hnew) hgrant).symm

/-- The token a grant replaced last ends it. -/
theorem gone_of_replay {a : RemoteAuth} {now : Nat} {draws : Draws} {save : Option String}
    {token clientID clientID' grant : String} {tokens : RemoteTokens}
    (hids : (a.cores.map GrantRecord.id).Nodup) (htoken : token ≠ "")
    (hholding : Holding lib token clientID grant tokens a.cores)
    (hout : ∀ g ∈ a.cores, g.refreshHash ≠ lib.tokenHash token)
    (hprev : ∀ g ∈ a.cores, g.prevRefreshHash = lib.tokenHash token → g.id = grant) :
    ∀ g ∈ (a.refreshGrant lib now draws save token clientID').2.cores, g.id ≠ grant := by
  unfold RemoteAuth.refreshGrant
  rw [if_neg htoken]
  dsimp only
  have hsub : (a.pruneGrantsLocked now).cores <+ a.cores := RemoteAuth.keeps_pruneGrants.cores
  generalize a.pruneGrantsLocked now = b at hsub ⊢
  have hcore : ∀ g ∈ b.state.grants, g.core ∈ a.cores :=
    fun g hg => hsub.subset (List.mem_map_of_mem hg)
  split
  · next hnone =>
    intro g' hg' hid
    obtain ⟨g, hg, rfl⟩ := List.mem_map.1 hg'
    have hmiss := List.findIdx?_eq_none_iff.1 hnone g hg
    rw [Bool.or_eq_false_iff] at hmiss
    exact of_decide_eq_false hmiss.2 (hholding _ (hcore g hg) hid).1
  · next i hi =>
    obtain ⟨hlt, hfound, _⟩ := List.findIdx?_eq_some_iff_getElem.1 hi
    rw [List.getElem?_eq_getElem hlt]
    dsimp only
    have hmem : b.state.grants[i].core ∈ a.cores := hcore _ (List.getElem_mem hlt)
    have hcurrent : b.state.grants[i].refreshHash ≠ lib.tokenHash token :=
      hout b.state.grants[i].core hmem
    rw [if_neg hcurrent]
    have hid : b.state.grants[i].id = grant := by
      rw [Bool.or_eq_true] at hfound
      exact hprev b.state.grants[i].core hmem (of_decide_eq_true (hfound.resolve_left
        fun hsame => hcurrent (of_decide_eq_true hsame)))
    intro g' hg' hsame
    have hleft : g' ∈ (b.state.grants.eraseIdx i).map GrantRecord.core := by
      have hkept := @RemoteAuth.keeps_trySave
        { b with state.grants := b.state.grants.eraseIdx i } save
      exact hkept.cores.subset hg'
    have hnodup : ((b.state.grants[i].core :: (b.state.grants.eraseIdx i).map GrantRecord.core).map
        GrantRecord.id).Nodup :=
      nodup_of_subperm (((List.getElem_cons_eraseIdx_perm hlt).map GrantRecord.core).subperm.trans
        hsub.subperm) hids
    refine (nodup_cons.1 hnodup).1 (List.mem_map.2 ⟨g', hleft, ?_⟩)
    rw [hsame, ← hid]
    rfl

/-- A token that no grant has or remembers is refused, and nothing else comes of it. -/
theorem refresh_of_forgotten {a : RemoteAuth} {now : Nat} {draws : Draws} {save : Option String}
    {token clientID : String} (htoken : token ≠ "")
    (hout : ∀ g ∈ a.cores, g.refreshHash ≠ lib.tokenHash token)
    (hlost : ∀ g ∈ a.cores, g.prevRefreshHash ≠ lib.tokenHash token) :
    a.refreshGrant lib now draws save token clientID =
      (.failed errRemoteBearer, a.pruneGrantsLocked now) := by
  unfold RemoteAuth.refreshGrant
  rw [if_neg htoken]
  dsimp only
  have hnone : (a.pruneGrantsLocked now).state.grants.findIdx? (fun g =>
      g.refreshHash = lib.tokenHash token || g.prevRefreshHash = lib.tokenHash token) = none := by
    rw [List.findIdx?_eq_none_iff]
    intro g hg
    have hcore : g.core ∈ a.cores :=
      RemoteAuth.keeps_pruneGrants.cores.subset (List.mem_map_of_mem hg)
    rw [Bool.or_eq_false_iff]
    exact ⟨decide_eq_false (hout g.core hcore), decide_eq_false (hlost g.core hcore)⟩
  rw [hnone]

theorem nonempty_of_exchanges {e : Config × Action} {token clientID grant : String}
    {tokens : RemoteTokens} (hexchanges : Exchanges lib e token clientID grant tokens) :
    token ≠ "" := by
  obtain ⟨⟨draws, save, hx⟩, hanswer⟩ := hexchanges
  rintro rfl
  obtain ⟨c, x⟩ := e
  obtain rfl : x = .refresh draws save "" clientID := hx
  cases hanswer

/-! ## Every run -/

theorem holding_since {mid older : History} {e₁ : Config × Action}
    {token clientID grant : String} {tokens : RemoteTokens}
    (hrun : Labelled.Run (calls lib) (fun h _ x => Fresh lib h x) {} (mid ++ e₁ :: older) c)
    (hexchanges : Exchanges lib e₁ token clientID grant tokens)
    (hquiet : ∀ e ∈ mid, ∀ token', lib.tokenHash token' = lib.tokenHash tokens.refresh →
      ¬ Presents e token' clientID) :
    Holding lib token clientID grant tokens c.auth.cores := by
  refine hrun.since (P := fun mid c => (∀ e ∈ mid, ∀ token',
    lib.tokenHash token' = lib.tokenHash tokens.refresh → ¬ Presents e token' clientID) →
      Holding lib token clientID grant tokens c.auth.cores) ?_ ?_ hquiet
  · intro _
    obtain ⟨c, x⟩ := e₁
    have hchange : GrantChange lib c.now (c, x).2 ((calls lib).answer (c, x)) c.auth.cores
        (x.act lib c).2.auth.cores := grants_of_change (change_act x c)
    exact holding_of_exchange (past_of_run hrun.before.1).1 hchange hexchanges
  · intro newer c x hrun hholding _ hfresh hquiet
    have hchange : GrantChange lib c.now (c, x).2 ((calls lib).answer (c, x)) c.auth.cores
        (x.act lib c).2.auth.cores := grants_of_change (change_act x c)
    have hgrant : Drawn lib (newer ++ e₁ :: older) grant :=
      ((past_of_run hrun).2.issued e₁ (mem_append_right _ mem_cons_self) grant tokens
        hexchanges.2).1
    exact holding_of_grantChange hfresh hgrant hchange (hquiet _ mem_cons_self)
      (hholding fun e he => hquiet e (mem_cons_of_mem _ he))

theorem gone_since_replay {newer mid older : History} {e₂ e₁ : Config × Action}
    {token clientID clientID' grant : String} {tokens : RemoteTokens}
    (hrun : Labelled.Run (calls lib) (fun h _ x => Fresh lib h x) {}
      (newer ++ e₂ :: (mid ++ e₁ :: older)) c)
    (hexchanges : Exchanges lib e₁ token clientID grant tokens)
    (hquiet : ∀ e ∈ mid, ∀ token', lib.tokenHash token' = lib.tokenHash tokens.refresh →
      ¬ Presents e token' clientID) (hagain : Presents e₂ token clientID') :
    ∀ g ∈ c.auth.cores, g.id ≠ grant := by
  refine hrun.since (P := fun _ c => ∀ g ∈ c.auth.cores, g.id ≠ grant) ?_ ?_
  · obtain ⟨hrun₂, _, _⟩ := hrun.before
    obtain ⟨hshape, hpast⟩ := past_of_run hrun₂
    have hmem : e₁ ∈ mid ++ e₁ :: older := mem_append_right _ mem_cons_self
    obtain ⟨_, hout, hprev⟩ := hpast.spent e₁ hmem token clientID grant tokens hexchanges
    have hholding := holding_since hrun₂ hexchanges hquiet
    obtain ⟨c₂, x₂⟩ := e₂
    obtain ⟨draws, save, rfl⟩ : ∃ draws save, x₂ = .refresh draws save token clientID' := hagain
    exact gone_of_replay hshape.ids (nonempty_of_exchanges hexchanges) hholding hout hprev
  · intro newer c x hrun hgone _ hfresh
    have hchange : GrantChange lib c.now x (x.act lib c).1 c.auth.cores
        (x.act lib c).2.auth.cores := grants_of_change (change_act x c)
    have hmem : e₁ ∈ newer ++ e₂ :: (mid ++ e₁ :: older) := by simp
    have hgrant := ((past_of_run hrun).2.issued e₁ hmem grant tokens hexchanges.2).1
    exact gone_of_grantChange hchange hfresh hgrant hgone

section

private def renew (n : String) (access refresh : String) : Action :=
  .refresh { token := .ok access, refresh := .ok refresh } none n "claude"

/-- Two exchanges. -/
private def twice : List Action :=
  [renew "refresh 2" "access 3" "refresh 3", renew "refresh 1" "access 2" "refresh 2"] ++
    sampleConnector

end

end Konnekt.Remote
