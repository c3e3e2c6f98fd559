import Konnekt.Remote.Names
import Mathlib.Data.List.Perm.Basic

/-!
# Grants over time

Whatever a call does to the list of grants is one of four things: some go, one comes,
one gets another access token, or one gets a new pair of tokens. Names are told apart
by when they were drawn.
-/

namespace Konnekt.Remote

open Go List

variable {lib : Platform} {h : History} {a a' : RemoteAuth} {now : Nat} {x : Action} {o : Outcome}

/-- The grants, but for their last use. -/
def RemoteAuth.cores (a : RemoteAuth) : List GrantRecord := a.state.grants.map GrantRecord.core

/-- What a call does to the grants, up to their order. -/
inductive GrantChange (lib : Platform) (now : Nat) (x : Action) (o : Outcome) (l l' : List GrantRecord) :
    Prop
  | kept (hplain : ∀ id tokens, o ≠ .issued id tokens) (hsub : l' <+~ l)
  | added {entry : AuthCode} {draws : Draws} {save : Option String} {r : CodeExchange}
      {tokens : RemoteTokens} {id : String} (hx : x = .exchange draws save r)
      (ho : o = .issued id tokens) (hid : draws.id = .ok id) (htokens : tokens.From draws)
      (hsub : l' <+~ ((entry.grant lib now id).rotated lib now tokens).core :: l)
  | renewed {g : GrantRecord} {rest : List GrantRecord} {access : String}
      (hplain : ∀ id tokens, o ≠ .issued id tokens) (haccess : x.draws.token = .ok access)
      (hbefore : g :: rest <+~ l) (hsub : l' <+~ g.renewed lib now access :: rest)
  | rotated {g : GrantRecord} {rest : List GrantRecord} {draws : Draws} {save : Option String}
      {token clientID : String} {tokens : RemoteTokens}
      (hx : x = .refresh draws save token clientID) (htoken : g.refreshHash = lib.tokenHash token)
      (hclient : g.clientID = clientID) (htokens : tokens.From draws)
      (ho : o = .issued g.id tokens ∨ ∃ err, o = .failed err)
      (hbefore : g :: rest <+~ l) (hsub : l' <+~ g.rotated lib now tokens :: rest)

theorem Keeps.cores (hkeeps : Keeps a a') : a'.cores <+ a.cores := hkeeps.grants

theorem cores_setGrant {i : Nat} {g : GrantRecord} (hg : a.state.grants[i]? = some g)
    (g' : GrantRecord) :
    ∃ rest, g.core :: rest <+~ a.cores ∧ (a.setGrant i g').cores <+~ g'.core :: rest := by
  obtain ⟨hi, rfl⟩ := List.getElem?_eq_some_iff.1 hg
  refine ⟨(a.state.grants.eraseIdx i).map GrantRecord.core, ?_, ?_⟩
  · exact ((List.getElem_cons_eraseIdx_perm hi).map GrantRecord.core).subperm
  · exact ((List.set_perm_cons_eraseIdx hi g').map GrantRecord.core).subperm

/-- What any call does to the grants. -/
theorem grants_of_change (hchange : Change lib now x a o a') :
    GrantChange lib now x o a.cores a'.cores := by
  cases hchange with
  | kept hplain hkeeps =>
    refine .kept ?_ hkeeps.cores.subperm
    rintro id tokens rfl
    cases hplain
  | @added mid _ hbefore hadds hafter =>
    cases hadds with
    | passwordSet hset =>
      refine .kept nofun (hafter.cores.subperm.trans ?_)
      rw [RemoteAuth.cores, hset.grants]
      exact List.nil_subperm
    | @issued _ _ _ _ entry id tokens _ _ _ hid htokens =>
      have hnew : a'.cores <+~ ((entry.grant lib now id).rotated lib now tokens).core :: a.cores := by
        refine hafter.cores.subperm.trans ?_
        rw [RemoteAuth.cores, List.map_append]
        exact List.perm_append_comm.subperm.trans
          ((List.subperm_cons _).2 hbefore.cores.subperm)
      exact .added rfl rfl hid htokens hnew
    | @renewed _ _ _ _ _ access i a g hg haccess =>
      obtain ⟨rest, hrest, hset⟩ := cores_setGrant hg (g.renewed lib now access)
      exact .renewed nofun haccess (hrest.trans hbefore.cores.subperm)
        (hafter.cores.subperm.trans hset)
    | @rotated _ _ _ _ _ i a g tokens hg htoken hclient htokens ho =>
      obtain ⟨rest, hrest, hset⟩ := cores_setGrant hg (g.rotated lib now tokens)
      exact .rotated (g := g.core) rfl htoken hclient htokens ho
        (hrest.trans hbefore.cores.subperm) (hafter.cores.subperm.trans hset)
    | _ => exact .kept nofun (hafter.cores.trans hbefore.cores).subperm

/-- Where a grant after a call comes from. -/
theorem mem_of_grantChange {l l' : List GrantRecord} (hchange : GrantChange lib now x o l l')
    {g' : GrantRecord} (hg' : g' ∈ l') :
    g' ∈ l ∨
    (∃ g ∈ l, ∃ access, x.draws.token = .ok access ∧ g' = g.renewed lib now access) ∨
    (∃ g ∈ l, ∃ draws save token, ∃ tokens : RemoteTokens,
      x = .refresh draws save token g.clientID ∧
      g.refreshHash = lib.tokenHash token ∧ tokens.From draws ∧ g' = g.rotated lib now tokens) ∨
    ∃ tokens : RemoteTokens, tokens.From x.draws ∧ x.draws.id = .ok g'.id ∧
      g'.accessHash = lib.tokenHash tokens.access ∧
      g'.refreshHash = lib.tokenHash tokens.refresh ∧ g'.prevRefreshHash = "" := by
  cases hchange with
  | kept _ hsub => exact .inl (hsub.subset hg')
  | added hx _ hid htokens hsub =>
    obtain rfl | hmem := List.mem_cons.1 (hsub.subset hg')
    · subst hx
      exact .inr (.inr (.inr ⟨_, htokens, hid, rfl, rfl, rfl⟩))
    · exact .inl hmem
  | renewed _ haccess hbefore hsub =>
    obtain rfl | hmem := List.mem_cons.1 (hsub.subset hg')
    · exact .inr (.inl ⟨_, hbefore.subset List.mem_cons_self, _, haccess, rfl⟩)
    · exact .inl (hbefore.subset (List.mem_cons_of_mem _ hmem))
  | rotated hx htoken hclient htokens _ hbefore hsub =>
    obtain rfl | hmem := List.mem_cons.1 (hsub.subset hg')
    · subst hx hclient
      exact .inr (.inr (.inl ⟨_, hbefore.subset List.mem_cons_self, _, _, _, _, rfl, htoken,
        htokens, rfl⟩))
    · exact .inl (hbefore.subset (List.mem_cons_of_mem _ hmem))

/-! ## What stays so -/

section

variable {l l' : List GrantRecord} (hchange : GrantChange lib now x o l l') (hfresh : Fresh lib h x)

include hchange hfresh

/-- A refresh token that cannot be exchanged never can be again. -/
theorem out_of_grantChange {y : String} (hy : Drawn lib h y) (hout : ∀ g ∈ l, g.refreshHash ≠ y) :
    ∀ g ∈ l', g.refreshHash ≠ y := by
  intro g' hg'
  obtain hmem | ⟨g, hmem, _, _, rfl⟩ | ⟨g, hmem, _, _, _, tokens, rfl, _, htokens, rfl⟩ |
      ⟨tokens, htokens, _, _, hrefresh, _⟩ := mem_of_grantChange hchange hg'
  · exact hout g' hmem
  · exact hout g hmem
  · exact (hfresh.ne (Draws.mem_refresh htokens.refresh) hy).symm
  · rw [hrefresh]
    exact (hfresh.ne (Draws.mem_refresh htokens.refresh) hy).symm

/-- A refresh token that cannot be exchanged is remembered only where it was. -/
theorem spent_of_grantChange {y : String} {P : String → Prop} (hne : y ≠ "")
    (hout : ∀ g ∈ l, g.refreshHash ≠ y) (hspent : ∀ g ∈ l, g.prevRefreshHash = y → P g.id) :
    ∀ g ∈ l', g.prevRefreshHash = y → P g.id := by
  intro g' hg' hprev
  obtain hmem | ⟨g, hmem, _, _, rfl⟩ | ⟨g, hmem, _, _, _, tokens, rfl, _, htokens, rfl⟩ |
      ⟨tokens, htokens, _, _, _, hnone⟩ := mem_of_grantChange hchange hg'
  · exact hspent g' hmem hprev
  · exact hspent g hmem hprev
  · exact absurd hprev (hout g hmem)
  · exact absurd (hprev.symm.trans hnone) hne

/-- The tokens of a grant are of no other. -/
theorem owned_of_grantChange {access refresh id : String} (haccess : Drawn lib h access)
    (hrefresh : Drawn lib h refresh)
    (howned : ∀ g ∈ l, g.accessHash = access ∨ g.refreshHash = refresh → g.id = id) :
    ∀ g ∈ l', g.accessHash = access ∨ g.refreshHash = refresh → g.id = id := by
  intro g' hg' hhas
  obtain hmem | ⟨g, hmem, token, htoken, rfl⟩ | ⟨g, hmem, _, _, _, tokens, rfl, _, htokens, rfl⟩ |
      ⟨tokens, htokens, _, hnewAccess, hnewRefresh, _⟩ := mem_of_grantChange hchange hg'
  · exact howned g' hmem hhas
  · obtain hhas | hhas := hhas
    · exact absurd hhas.symm (hfresh.ne (Draws.mem_token htoken) haccess)
    · exact howned g hmem (.inr hhas)
  · obtain hhas | hhas := hhas
    · exact absurd hhas.symm (hfresh.ne (Draws.mem_token htokens.access) haccess)
    · exact absurd hhas.symm (hfresh.ne (Draws.mem_refresh htokens.refresh) hrefresh)
  · rw [hnewAccess, hnewRefresh] at hhas
    obtain hhas | hhas := hhas
    · exact absurd hhas.symm (hfresh.ne (Draws.mem_token htokens.access) haccess)
    · exact absurd hhas.symm (hfresh.ne (Draws.mem_refresh htokens.refresh) hrefresh)

/-- A grant that is gone does not come back. -/
theorem gone_of_grantChange {id : String} (hid : Drawn lib h id) (hgone : ∀ g ∈ l, g.id ≠ id) :
    ∀ g ∈ l', g.id ≠ id := by
  intro g' hg'
  obtain hmem | ⟨g, hmem, _, _, rfl⟩ | ⟨g, hmem, _, _, _, _, _, _, _, rfl⟩ | ⟨_, _, hnew, _⟩ :=
    mem_of_grantChange hchange hg'
  · exact hgone g' hmem
  · exact hgone g hmem
  · exact hgone g hmem
  · exact (hfresh.ne (Draws.mem_id hnew) hid).symm

end

end Konnekt.Remote
