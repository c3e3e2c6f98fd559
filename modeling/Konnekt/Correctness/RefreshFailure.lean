import Konnekt.Remote.Grants

/-!
# Refreshes that fail

A refresh rewrites the grant's record in place before it is saved, and what has been
rewritten stays when the second token cannot be drawn or the file not be written.
-/

namespace Konnekt.Remote

open Go

/-- Filtering keeps what is found first, when it is kept itself. -/
theorem findIdx?_filter {α : Type} {p q : α → Bool} {l : List α} {i : Nat} {x : α}
    (hi : l.findIdx? p = some i) (hx : l[i]? = some x) (hq : q x = true) :
    ∃ j, (l.filter q).findIdx? p = some j ∧ (l.filter q)[j]? = some x := by
  induction l generalizing i with
  | nil => cases hi
  | cons y l ih =>
    rw [List.findIdx?_cons] at hi
    cases hp : p y with
    | true =>
      rw [hp, if_pos rfl] at hi
      cases hi
      obtain rfl : y = x := Option.some.inj hx
      rw [List.filter_cons_of_pos hq]
      exact ⟨0, by rw [List.findIdx?_cons, hp, if_pos rfl], rfl⟩
    | false =>
      rw [hp, if_neg Bool.false_ne_true] at hi
      obtain ⟨k, hk, rfl⟩ := Option.map_eq_some_iff.1 hi
      obtain ⟨j, hj, hxj⟩ := ih hk hx
      cases hy : q y with
      | true =>
        rw [List.filter_cons_of_pos hy]
        refine ⟨j + 1, ?_, hxj⟩
        rw [List.findIdx?_cons, hp, if_neg Bool.false_ne_true, hj]
        rfl
      | false =>
        rw [List.filter_cons_of_neg (by rw [hy]; exact Bool.false_ne_true)]
        exact ⟨j, hj, hxj⟩

section

variable {lib : Platform} {now : Nat} {draws : Draws} {save : Option String}
  {token clientID err : String} {a a' : RemoteAuth} {i : Nat} {g : GrantRecord}

/-- The token is the one a grant's client refreshes with; the grant stands at `i` once those
that have ended are dropped. -/
structure Presented (lib : Platform) (now : Nat) (token clientID : String) (a : RemoteAuth) (i : Nat)
    (g : GrantRecord) : Prop where
  ne_empty : token ≠ ""
  found : (a.pruneGrantsLocked now).state.grants.findIdx? (fun g =>
    g.refreshHash = lib.tokenHash token || g.prevRefreshHash = lib.tokenHash token) = some i
  record : (a.pruneGrantsLocked now).state.grants[i]? = some g
  refresh : g.refreshHash = lib.tokenHash token
  client : g.clientID = clientID

/-- The grants in memory and on disk are the same, but for those that have ended. -/
def SameGrants (now : Nat) (a a' : RemoteAuth) : Prop :=
  (a'.pruneGrantsLocked now).state.grants = (a.pruneGrantsLocked now).state.grants ∧
    a'.saved = a.saved

/-- The token refreshes the grant when nothing fails, as long as the grant has not ended. -/
def Succeeds (lib : Platform) (token clientID : String) (a : RemoteAuth) (g : GrantRecord) : Prop :=
  ∀ (now : Nat) (draws : Draws) (access refresh : String), draws.token = .ok access →
    draws.refresh = .ok refresh → g.alive now = true →
    ∃ tokens, (a.refreshGrant lib now draws none token clientID).1 = .issued g.id tokens

theorem alive_of_mem_prune (h : g ∈ (a.pruneGrantsLocked now).state.grants) :
    g.alive now = true :=
  (List.mem_filter.1 h).2

/-- What is left of the list after pruning stays when it is pruned again. -/
theorem prune_prune : ((a.pruneGrantsLocked now).pruneGrantsLocked now).state.grants =
    (a.pruneGrantsLocked now).state.grants := by
  simp only [RemoteAuth.pruneGrantsLocked, List.filter_filter, Bool.and_self]

/-- A token of a grant's client refreshes, once the tokens are drawn and the file is written. -/
theorem Presented.issued (hpresented : Presented lib now token clientID a i g) {access refresh : String}
    (haccess : draws.token = .ok access) (hrefresh : draws.refresh = .ok refresh) :
    ∃ tokens, (a.refreshGrant lib now draws none token clientID).1 = .issued g.id tokens := by
  unfold RemoteAuth.refreshGrant
  rw [if_neg hpresented.ne_empty]
  simp only [hpresented.found, hpresented.record, hpresented.refresh, hpresented.client, if_true, ne_eq,
    not_true_eq_false, if_false, RemoteAuth.mintLocked, haccess, hrefresh, Bool.not_true,
    Bool.false_eq_true, RemoteAuth.saveLocked]
  exact ⟨_, rfl⟩

/-- A call that leaves the pruned list lets the token succeed later. -/
theorem Presented.succeeds (hpresented : Presented lib now token clientID a i g)
    (hsame : a'.state.grants = (a.pruneGrantsLocked now).state.grants) :
    Succeeds lib token clientID a' g := by
  intro now' draws' access refresh haccess hrefresh halive
  obtain ⟨j, hj, hgj⟩ := findIdx?_filter hpresented.found hpresented.record halive
  have hlater : Presented lib now' token clientID a' j g := by
    refine ⟨hpresented.ne_empty, ?_, ?_, hpresented.refresh, hpresented.client⟩
    · show (a'.state.grants.filter _).findIdx? _ = some j
      rw [hsame]
      exact hj
    · show (a'.state.grants.filter _)[j]? = some g
      rw [hsame]
      exact hgj
  exact hlater.issued haccess hrefresh

/-- A rewritten record has not ended if it had not before. -/
theorem alive_of_minted {g' : GrantRecord} (halive : g.alive now = true)
    (hcreated : g'.created = g.created) (hused : g'.lastUsed = g.lastUsed ∨ g'.lastUsed = unix now)
    (hexpires : g'.accessExpires = unix (now + remoteAccessTokenTTL)) :
    g'.alive now = true := by
  unfold GrantRecord.alive at halive ⊢
  simp only [Bool.and_eq_true, decide_eq_true_eq] at halive
  obtain ⟨⟨hlifetime, hunused⟩, -⟩ := halive
  have htoken : unix now < g'.accessExpires := by
    rw [hexpires]
    unfold unix remoteAccessTokenTTL seconds
    omega
  simp only [hcreated, Bool.and_eq_true, decide_eq_true_eq, Bool.or_eq_true]
  refine ⟨⟨hlifetime, ?_⟩, .inr htoken⟩
  obtain hused | hused := hused
  · rw [hused]
    exact hunused
  · rw [hused]
    unfold remoteGrantUnused
    omega

/-- A record with the access token that was drawn for it. -/
structure Minted (lib : Platform) (now : Nat) (access : String) (g g' : GrantRecord) : Prop where
  id : g'.id = g.id
  created : g'.created = g.created
  accessHash : g'.accessHash = lib.tokenHash access
  accessExpires : g'.accessExpires = unix (now + remoteAccessTokenTTL)
  alive : g'.alive now = true

/-- What a refresh does: it drops grants, or it rewrites a record with the access token that was
drawn. -/
inductive RefreshChange (lib : Platform) (now : Nat) (draws : Draws) (token clientID : String)
    (a : RemoteAuth) (o : Outcome) (a' : RemoteAuth) : Prop
  | kept (hempty : token = "") (hafter : a' = a)
  | pruned (hundrawn : ∀ i g, Presented lib now token clientID a i g → ∀ access,
      draws.token ≠ .ok access) (hafter : a' = a.pruneGrantsLocked now)
  | replayed {i : Nat} {id : String} (hother : ∀ j g, ¬ Presented lib now token clientID a j g)
      (ho : o = .replayed id)
      (hafter : a'.state.grants = (a.pruneGrantsLocked now).state.grants.eraseIdx i)
  | minted {i : Nat} {g g' : GrantRecord} {access : String}
      (hpresented : Presented lib now token clientID a i g) (haccess : draws.token = .ok access)
      (hminted : Minted lib now access g g')
      (hafter : a'.state = ((a.pruneGrantsLocked now).setGrant i g').state)

theorem refreshGrant_change : RefreshChange lib now draws token clientID a
    (a.refreshGrant lib now draws save token clientID).1
    (a.refreshGrant lib now draws save token clientID).2 := by
  unfold RemoteAuth.refreshGrant
  by_cases hempty : token = ""
  · rw [if_pos hempty]
    exact .kept hempty rfl
  rw [if_neg hempty]
  dsimp only
  cases hfound : (a.pruneGrantsLocked now).state.grants.findIdx? (fun g =>
      g.refreshHash = lib.tokenHash token || g.prevRefreshHash = lib.tokenHash token) with
  | none =>
    refine .pruned (fun i g hpresented => ?_) rfl
    have hnone := hpresented.found
    rw [hfound] at hnone
    cases hnone
  | some i =>
    obtain ⟨hlt, -, -⟩ := List.findIdx?_eq_some_iff_getElem.1 hfound
    have hrecord := List.getElem?_eq_getElem hlt
    generalize hg : (a.pruneGrantsLocked now).state.grants[i] = g at hrecord
    have hgalive : g.alive now = true := alive_of_mem_prune (List.mem_of_getElem? hrecord)
    simp only [hrecord]
    -- any grant the token is current for is this one
    have hsame : ∀ j g', Presented lib now token clientID a j g' → g' = g := by
      intro j g' hpresented
      obtain rfl : j = i := Option.some.inj (hpresented.found.symm.trans hfound)
      exact Option.some.inj (hpresented.record.symm.trans hrecord)
    by_cases hrefresh : g.refreshHash = lib.tokenHash token
    · rw [if_pos hrefresh]
      by_cases hclient : g.clientID = clientID
      · rw [if_neg (not_not.2 hclient)]
        have hpresented : Presented lib now token clientID a i g :=
          ⟨hempty, hfound, hrecord, hrefresh, hclient⟩
        cases haccess : draws.token with
        | error e =>
          have hset : (a.pruneGrantsLocked now).state.grants.set i g =
              (a.pruneGrantsLocked now).state.grants := by
            rw [← hg]
            exact List.set_getElem_self hlt
          simp only [RemoteAuth.mintLocked, haccess]
          refine .pruned (fun _ _ _ access => by rw [haccess]; nofun) ?_
          rw [RemoteAuth.setGrant, hset]
        | ok access =>
          have hminted : ∀ current prev used, used = g.lastUsed ∨ used = unix now →
              Minted lib now access g { g with
                accessHash := lib.tokenHash access
                accessExpires := unix (now + remoteAccessTokenTTL)
                prevRefreshHash := prev
                refreshHash := current
                lastUsed := used } :=
            fun _ _ _ hused => ⟨rfl, rfl, rfl, rfl, alive_of_minted hgalive rfl hused rfl⟩
          cases hnew : draws.refresh with
          | error e =>
            simp only [RemoteAuth.mintLocked, haccess, hnew, Bool.not_true, Bool.false_eq_true,
              if_false]
            exact .minted hpresented haccess (hminted g.refreshHash g.prevRefreshHash _ (.inl rfl)) rfl
          | ok refresh =>
            simp only [RemoteAuth.mintLocked, haccess, hnew, Bool.not_true, Bool.false_eq_true,
              if_false]
            cases save with
            | none =>
              exact .minted hpresented haccess (hminted _ _ _ (.inr rfl)) rfl
            | some e =>
              exact .minted hpresented haccess (hminted _ _ _ (.inr rfl)) rfl
      · rw [if_pos hclient]
        refine .pruned (fun j g' hpresented => ?_) rfl
        have hclient' := hpresented.client
        rw [hsame j g' hpresented] at hclient'
        exact absurd hclient' hclient
    · rw [if_neg hrefresh]
      refine .replayed (i := i) (fun j g' hpresented => ?_) rfl ?_
      · have hrefresh' := hpresented.refresh
        rw [hsame j g' hpresented] at hrefresh'
        exact hrefresh hrefresh'
      · cases save <;> rfl

end

/-- A refresh that fails, other than for a replayed token, changes nothing and can be made again
exactly where no access token was drawn for the grant yet. -/
theorem failed_refresh_keeps {lib : Platform} {now : Nat} {draws : Draws} {save : Option String}
    {token clientID err : String} {a a' : RemoteAuth}
    (hfresh : ∀ access, draws.token = .ok access →
      ∀ g ∈ a.state.grants, g.accessHash ≠ lib.tokenHash access)
    (hcall : a.refreshGrant lib now draws save token clientID = (.failed err, a')) :
    (SameGrants now a a' ∧
        ∀ i g, Presented lib now token clientID a i g → Succeeds lib token clientID a' g) ↔
      ∀ i g, Presented lib now token clientID a i g → ∀ access, draws.token ≠ .ok access := by
  have hchange := @refreshGrant_change lib now draws save token clientID a
  rw [hcall] at hchange
  cases hchange with
  | kept hempty hafter =>
    dsimp only at hafter
    rw [hafter]
    exact iff_of_true ⟨⟨rfl, rfl⟩, fun _ _ hpresented => absurd hempty hpresented.ne_empty⟩
      fun _ _ hpresented => absurd hempty hpresented.ne_empty
  | pruned hundrawn hafter =>
    dsimp only at hafter
    rw [hafter]
    exact iff_of_true ⟨⟨prune_prune, rfl⟩, fun _ _ hpresented => hpresented.succeeds rfl⟩ hundrawn
  | replayed _ ho => cases ho
  | @minted i g g' access hpresented haccess hminted hafter =>
    refine iff_of_false ?_ fun hundrawn => hundrawn i g hpresented access haccess
    rintro ⟨⟨hsame, -⟩, -⟩
    -- the rewritten record has an access token no grant had
    have hmem : g' ∈ (a'.pruneGrantsLocked now).state.grants := by
      obtain ⟨hlt, -⟩ := List.getElem?_eq_some_iff.1 hpresented.record
      refine List.mem_filter.2 ⟨?_, hminted.alive⟩
      dsimp only at hafter
      rw [hafter]
      exact List.mem_set hlt g'
    rw [hsame] at hmem
    exact hfresh access haccess g' (List.mem_of_mem_filter hmem) hminted.accessHash

/-! ## A file that cannot be written -/

section

/-- Parts that are all the same, but for the hash. -/
def plainPlatform : Platform where
  tokenHash token := "#" ++ token
  verify _ _ := false
  challengeOf verifier := verifier
  isPrint _ := true
  toLower s := s
  equalFold s s' := s = s'
  parseURL _ := none

/-- A connector signed in with both tokens. -/
def signedIn : RemoteAuth :=
  let g : GrantRecord :=
    { id := "g", client := "Claude", clientID := "c", redirect := "claude.ai",
      scopes := [remoteScopeRead], resource := "https://k.example/mcp", accessHash := "#access",
      accessExpires := 3600, refreshHash := "#refresh", created := 0 }
  { state := { grants := [g] }, saved := { grants := [g] } }

def nextDraws : Draws := { token := .ok "access2", refresh := .ok "refresh2" }

/-- The tokens were replaced although the file was not written, so the retry is taken for a
replay and ends the grant. -/
theorem not_failed_refresh_keeps :
    ∃ a', signedIn.refreshGrant plainPlatform 0 nextDraws (some "disk full") "refresh" "c" =
        (.failed "disk full", a') ∧
      ¬ SameGrants 0 signedIn a' ∧
      (a'.refreshGrant plainPlatform 0 { token := .ok "access3", refresh := .ok "refresh3" } none
        "refresh" "c").1 = .replayed "g" := by
  refine ⟨_, rfl, ?_, by decide +kernel⟩
  rintro ⟨hsame, -⟩
  exact absurd hsame (by decide +kernel)

/-- Without an access token nothing was rewritten, and the retry goes through. -/
theorem failed_refresh_keeps_undrawn :
    ∃ a', signedIn.refreshGrant plainPlatform 0 {} none "refresh" "c" =
        (.failed "remote: token", a') ∧
      SameGrants 0 signedIn a' ∧ ∀ i g, Presented plainPlatform 0 "refresh" "c" signedIn i g →
        Succeeds plainPlatform "refresh" "c" a' g := by
  refine ⟨_, rfl, ?_⟩
  have hcall := @failed_refresh_keeps plainPlatform 0 {} none "refresh" "c" "remote: token" signedIn
    _ nofun rfl
  exact hcall.2 fun _ _ _ _ => nofun

end

end Konnekt.Remote
