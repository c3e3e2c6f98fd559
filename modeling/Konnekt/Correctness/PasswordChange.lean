import Konnekt.Remote.Consents

/-!
# What a password change ends

Every session, request, consent, code and grant goes back to one check of the
password, made against the hash that was stored when the check began. A change of the
password drops all that was earned before it, and nothing is earned with the old one
afterwards, as long as no sign-in whose check straddles the change turns out right.
-/

namespace Konnekt.Remote

open Go

variable {lib : Platform} {h : History} {a a' : RemoteAuth} {c : Config}

/-! ## What a credential was earned with -/

/-- Where a credential comes from. -/
inductive Origin where
  | check (encoded : String)
  | credential (name : String)

/-- The credential a call gives out, and where it comes from. -/
def credit (lib : Platform) : Action → Outcome → Option (String × Origin)
  | .loginChecked _ _ f, .signedIn _ session _ => some (session, .check f.encoded)
  | .loginChecked _ _ f, .requested id _ _ => some (id, .check f.encoded)
  | .loginWait _ _ _, .collected request _ session _ => some (session, .credential request)
  | .consentChecked f, .asked id => some (id, .check f.encoded)
  | .decide _ _ _, .decided id code => some (lib.tokenHash code, .credential id)
  | .exchange _ _ r, .issued grant _ => some (grant, .credential (lib.tokenHash r.code))
  | _, _ => none

/-- The hash of an origin, when those of earlier credentials are known. -/
def Origin.encoded (before : String → Option String) : Origin → Option String
  | .check encoded => some encoded
  | .credential from_ => before from_

/-- The hash a credential's password was checked against. -/
def earned (lib : Platform) : History → String → Option String
  | [], _ => none
  | e :: h, name =>
    match credit lib e.2 ((calls lib).answer e) with
    | some (new, origin) =>
      if new = name then origin.encoded (earned lib h) else earned lib h name
    | none => earned lib h name

/-- A credential of the service, in memory or in `remote.json`. A consent is one once its password
was right. -/
inductive RemoteAuth.Holds (a : RemoteAuth) : String → Prop
  | session {k : String} {s : SessionEntry} (hk : a.sessions.lookup k = some s) : a.Holds s.id
  | request {k : String} {p : PendingEntry} (hk : a.pending.lookup k = some p) : a.Holds k
  | consent {k : String} {v : Consent} (hk : a.consents.lookup k = some v)
      (hwaiting : v.waiting = true) : a.Holds k
  | code {k : String} {v : AuthCode} (hk : a.codes.lookup k = some v) : a.Holds k
  | grant {g : GrantRecord} (hg : g ∈ a.state.grants ++ a.saved.grants) : a.Holds g.id

namespace RemoteAuth.Holds

variable {name k : String}

/-- What is held after a call that keeps was held before it. -/
theorem of_keeps (hkeeps : Keeps a a') (hname : a'.Holds name) : a.Holds name := by
  cases hname with
  | session hk =>
    obtain ⟨s, hs, _, rfl⟩ := hkeeps.sessions _ _ hk
    have hheld : a.Holds s.id := .session hs
    exact hheld
  | request hk =>
    obtain ⟨_, hp, rfl⟩ := hkeeps.pending _ _ hk
    exact .request hp
  | consent hk hwaiting =>
    obtain ⟨_, hv, ⟨_, _, rfl⟩, _⟩ := hkeeps.consents _ _ hk
    exact .consent hv hwaiting
  | code hk =>
    obtain ⟨_, hv, rfl⟩ := hkeeps.codes _ _ hk
    exact .code hv
  | grant hg =>
    obtain ⟨g, hmem, hcore⟩ : ∃ g ∈ a.state.grants ++ a.saved.grants, _ = g.core := by
      obtain hmem | hmem := List.mem_append.1 hg
      · obtain ⟨g, hg, hcore⟩ := hkeeps.mem_grants hmem
        exact ⟨g, List.mem_append_left _ hg, hcore⟩
      · exact hkeeps.saved _ hmem
    have hheld : a.Holds g.id := .grant hmem
    obtain ⟨_, rfl⟩ := GrantRecord.of_core hcore
    exact hheld

theorem of_insertSession {s : SessionEntry}
    (hname : { a with sessions := a.sessions.insert k s }.Holds name) :
    name = s.id ∨ a.Holds name := by
  cases hname with
  | session hk =>
    obtain ⟨_, rfl⟩ | ⟨_, hk⟩ := GoMap.lookup_of_insert hk
    · exact .inl rfl
    · exact .inr (.session hk)
  | request hk => exact .inr (.request hk)
  | consent hk hwaiting => exact .inr (.consent hk hwaiting)
  | code hk => exact .inr (.code hk)
  | grant hg => exact .inr (.grant hg)

theorem of_insertPending {p : PendingEntry}
    (hname : { a with pending := a.pending.insert k p }.Holds name) :
    name = k ∨ a.Holds name := by
  cases hname with
  | session hk => exact .inr (.session hk)
  | request hk =>
    obtain ⟨rfl, _⟩ | ⟨_, hk⟩ := GoMap.lookup_of_insert hk
    · exact .inl rfl
    · exact .inr (.request hk)
  | consent hk hwaiting => exact .inr (.consent hk hwaiting)
  | code hk => exact .inr (.code hk)
  | grant hg => exact .inr (.grant hg)

theorem of_insertConsent {v : Consent}
    (hname : { a with consents := a.consents.insert k v }.Holds name) :
    name = k ∧ v.waiting = true ∨ a.Holds name := by
  cases hname with
  | session hk => exact .inr (.session hk)
  | request hk => exact .inr (.request hk)
  | consent hk hwaiting =>
    obtain ⟨rfl, rfl⟩ | ⟨_, hk⟩ := GoMap.lookup_of_insert hk
    · exact .inl ⟨rfl, hwaiting⟩
    · exact .inr (.consent hk hwaiting)
  | code hk => exact .inr (.code hk)
  | grant hg => exact .inr (.grant hg)

theorem of_insertCode {v : AuthCode}
    (hname : { a with codes := a.codes.insert k v }.Holds name) :
    name = k ∨ a.Holds name := by
  cases hname with
  | session hk => exact .inr (.session hk)
  | request hk => exact .inr (.request hk)
  | consent hk hwaiting => exact .inr (.consent hk hwaiting)
  | code hk =>
    obtain ⟨rfl, _⟩ | ⟨_, hk⟩ := GoMap.lookup_of_insert hk
    · exact .inl rfl
    · exact .inr (.code hk)
  | grant hg => exact .inr (.grant hg)

theorem of_devices {ds : List DeviceRecord}
    (hname : { a with state.devices := ds }.Holds name) : a.Holds name := by
  cases hname with
  | session hk => exact .session hk
  | request hk => exact .request hk
  | consent hk hwaiting => exact .consent hk hwaiting
  | code hk => exact .code hk
  | grant hg => exact .grant hg

/-- Grants other than those there were. -/
theorem of_grants {gs : List GrantRecord} (hname : { a with state.grants := gs }.Holds name) :
    (∃ g ∈ gs, name = g.id) ∨ a.Holds name := by
  cases hname with
  | session hk => exact .inr (.session hk)
  | request hk => exact .inr (.request hk)
  | consent hk hwaiting => exact .inr (.consent hk hwaiting)
  | code hk => exact .inr (.code hk)
  | grant hg =>
    obtain hmem | hmem := List.mem_append.1 hg
    · exact .inl ⟨_, hmem, rfl⟩
    · exact .inr (.grant (List.mem_append_right _ hmem))

/-- A grant that only changes its tokens. -/
theorem of_setGrant {i : Nat} {g g' : GrantRecord} (hi : a.state.grants[i]? = some g)
    (hname : (a.setGrant i g').Holds name) (hid : g'.id = g.id) : a.Holds name := by
  obtain ⟨v, hmem, rfl⟩ | hheld := of_grants hname
  · obtain hmem | rfl := List.mem_or_eq_of_mem_set hmem
    · exact .grant (List.mem_append_left _ hmem)
    · rw [hid]
      exact .grant (List.mem_append_left _ (List.mem_of_getElem? hi))
  · exact hheld

end RemoteAuth.Holds

/-- A call gives out at most one credential; everything else it leaves was there. -/
theorem holds_adds {now : Nat} {x : Action} {o : Outcome} (hadds : Adds lib now x o a a')
    {name : String} (hname : a'.Holds name) :
    a.Holds name ∨ ∃ origin, credit lib x o = some (name, origin) := by
  cases hadds with
  | passwordSet hset =>
    cases hname with
    | session hk => rw [hset.sessions] at hk; cases hk
    | request hk => rw [hset.pending] at hk; cases hk
    | consent hk => rw [hset.consents] at hk; cases hk
    | code hk => rw [hset.codes] at hk; cases hk
    | grant hg =>
      rw [hset.grants, List.nil_append] at hg
      obtain hnil | ⟨_, hsame⟩ := hset.saved
      · rw [hnil] at hg
        cases hg
      · rw [hsame] at hg
        exact .inl (.grant (List.mem_append_left _ hg))
  | signedIn =>
    obtain rfl | hheld := hname.of_insertSession
    · exact .inr ⟨_, rfl⟩
    · exact .inl hheld
  | requested =>
    obtain rfl | hheld := hname.of_insertPending
    · exact .inr ⟨_, rfl⟩
    · exact .inl hheld
  | collected =>
    obtain rfl | hheld := hname.of_insertSession
    · exact .inr ⟨_, rfl⟩
    · exact .inl (hheld.of_keeps (RemoteAuth.keeps_erasePending _))
  | @approved _ _ _ _ _ _ d _ _ hp =>
    obtain rfl | hheld := RemoteAuth.Holds.of_insertPending
      (a := { a with state.devices := a.state.devices ++ [d] }) hname
    · exact .inl (.request hp)
    · exact .inl hheld.of_devices
  | consentPage =>
    obtain ⟨_, hwaiting⟩ | hheld := hname.of_insertConsent
    · cases hwaiting
    · exact .inl hheld
  | asked =>
    obtain ⟨rfl, _⟩ | hheld := hname.of_insertConsent
    · exact .inr ⟨_, rfl⟩
    · exact .inl hheld
  | @decided _ _ code _ c hc =>
    obtain ⟨rfl, hwaiting⟩ | hheld := RemoteAuth.Holds.of_insertConsent
      (a := { a with codes := a.codes.insert (lib.tokenHash code) (c.authCode now) }) hname
    · exact .inl (.consent hc hwaiting)
    · obtain rfl | hheld := hheld.of_insertCode
      · exact .inr ⟨_, rfl⟩
      · exact .inl hheld
  | @issued _ _ r _ entry id tokens =>
    obtain ⟨g, hmem, rfl⟩ | hheld := RemoteAuth.Holds.of_grants
      (a := { a with codes := a.codes.erase (lib.tokenHash r.code) }) hname
    · obtain hmem | hmem := List.mem_append.1 hmem
      · exact .inl (.grant (List.mem_append_left _ hmem))
      · rw [List.mem_singleton.1 hmem]
        exact .inr ⟨_, rfl⟩
    · exact .inl (hheld.of_keeps (.of_codes (GoMap.within_erase (fun _ => rfl) _)))
  | renewed hg => exact .inl (hname.of_setGrant hg rfl)
  | rotated hg => exact .inl (hname.of_setGrant hg rfl)

/-- What is held after a call was held before it, or is given out by it. -/
theorem holds_change {now : Nat} {x : Action} {o : Outcome} (hchange : Change lib now x a o a')
    {name : String} (hname : a'.Holds name) :
    a.Holds name ∨ ∃ origin, credit lib x o = some (name, origin) := by
  cases hchange with
  | kept _ hkeeps => exact .inl (hname.of_keeps hkeeps)
  | added hbefore hadds hafter =>
    obtain hheld | hcredit := holds_adds hadds (hname.of_keeps hafter)
    · exact .inl (hheld.of_keeps hbefore)
    · exact .inr hcredit

/-! ## One call -/

/-- A sign-in ends whose password was right by a hash that was replaced since it began, or the
password changes and the grants cannot be dropped from `remote.json` as well. -/
def straddles (lib : Platform) (c : Config) : Action → Bool
  | .loginChecked _ _ f =>
    RemoteAuth.passwordRight lib f.password f.encoded && f.encoded ≠ c.auth.state.password
  | .setPassword (.ok _) none (some _) _ => ! c.auth.state.grants.isEmpty
  | _ => false

/-- Whatever was earned was earned with the current password, and the checks in flight of the
consents there are use it. -/
structure Current (lib : Platform) (h : History) (c : Config) : Prop where
  held : ∀ name, c.auth.Holds name → earned lib h name = some c.auth.state.password
  checks : ∀ f, .consent f ∈ c.checks → ∀ v, c.auth.consents.lookup f.request = some v →
    f.encoded = c.auth.state.password

theorem credit_plain {x : Action} {o : Outcome} (hplain : o.plain = true) :
    credit lib x o = none := by
  cases o with
  | signedIn | requested | collected | asked | decided | issued => cases hplain
  | _ => cases x <;> rfl

/-- Where what a call gives out comes from. -/
theorem origin_of_credit {now : Nat} {x : Action} {o : Outcome} {name : String} {origin : Origin}
    (hknown : a.Known lib h)
    (hchange : Change lib now x a o a') (hcredit : credit lib x o = some (name, origin)) :
    (∃ draws save f, x = .loginChecked draws save f ∧ origin = .check f.encoded ∧
      RemoteAuth.passwordRight lib f.password f.encoded = true) ∨
    (∃ f v, x = .consentChecked f ∧ origin = .check f.encoded ∧
      a.consents.lookup f.request = some v) ∨
    (∃ draws id err v, x = .decide draws id err ∧ origin = .credential id ∧
      a.consents.lookup id = some v) ∨
    ∃ from_, origin = .credential from_ ∧ a.Holds from_ := by
  cases hchange with
  | kept hplain =>
    rw [credit_plain hplain] at hcredit
    cases hcredit
  | added hbefore hadds hafter =>
    cases hadds with
    | passwordSet => cases hcredit
    | signedIn hright =>
      cases hcredit
      exact .inl ⟨_, _, _, rfl, rfl, hright⟩
    | requested hright =>
      cases hcredit
      exact .inl ⟨_, _, _, rfl, rfl, hright⟩
    | collected hp =>
      cases hcredit
      obtain ⟨_, hpending, rfl⟩ := hbefore.pending _ _ hp
      refine .inr (.inr (.inr ⟨_, rfl, ?_⟩))
      rw [(hknown.pending _ _ hpending).1]
      exact .request hpending
    | approved => cases hcredit
    | consentPage => cases hcredit
    | asked hc =>
      cases hcredit
      obtain ⟨v, hv, _⟩ := hbefore.consents _ _ hc
      exact .inr (.inl ⟨_, v, rfl, rfl, hv⟩)
    | decided hc =>
      cases hcredit
      obtain ⟨v, hv, _⟩ := hbefore.consents _ _ hc
      exact .inr (.inr (.inl ⟨_, _, _, v, rfl, rfl, hv⟩))
    | issued hcode =>
      cases hcredit
      exact .inr (.inr (.inr ⟨_, rfl, .of_keeps hbefore (.code hcode)⟩))
    | renewed => cases hcredit
    | rotated _ _ _ _ ho => obtain rfl | ⟨_, rfl⟩ := ho <;> cases hcredit

/-- The password stays, or everything goes with it. -/
theorem password_of_change {now : Nat} {x : Action} {o : Outcome}
    (hchange : Change lib now x a o a') :
    a'.state.password = a.state.password ∨
      ∃ hash again password mid mid', x = .setPassword (.ok hash) none again password ∧
        Keeps a mid ∧ PasswordSet hash again mid mid' ∧ Keeps mid' a' := by
  cases hchange with
  | kept _ hkeeps => exact .inl hkeeps.password
  | added hbefore hadds hafter =>
    cases hadds with
    | passwordSet hset => exact .inr ⟨_, _, _, _, _, rfl, hbefore, hset, hafter⟩
    | _ => exact .inl (hafter.password.trans hbefore.password)

/-- Nothing is held once the password has changed. -/
theorem not_holds_of_set {hash : String} {again : Option String} {mid mid' : RemoteAuth}
    (hsteady : a.state.grants = [] ∨ again = none) (hbefore : Keeps a mid)
    (hset : PasswordSet hash again mid mid') (hafter : Keeps mid' a') (name : String) :
    ¬ a'.Holds name := by
  intro hname
  cases hname.of_keeps hafter with
  | session hk => rw [hset.sessions] at hk; cases hk
  | request hk => rw [hset.pending] at hk; cases hk
  | consent hk => rw [hset.consents] at hk; cases hk
  | code hk => rw [hset.codes] at hk; cases hk
  | grant hg =>
    rw [hset.grants, List.nil_append] at hg
    obtain hnil | ⟨hagain, hsame⟩ := hset.saved
    · rw [hnil] at hg
      cases hg
    · rw [hsame] at hg
      obtain ⟨g, hmem, _⟩ := hbefore.mem_grants hg
      rw [hsteady.resolve_right hagain] at hmem
      cases hmem

/-- What is given out comes from the current password. -/
theorem earned_credit {x : Action} {o : Outcome} {name : String} {origin : Origin}
    (hcurrent : Current lib h c) (hknown : c.Known lib h) (henabled : x.Enabled c)
    (hwaiting : ∀ id ∈ c.asks, ∀ v, c.auth.consents.lookup id = some v → v.waiting = true)
    (hsteady : straddles lib c x = false) (hchange : Change lib c.now x c.auth o a')
    (hcredit : credit lib x o = some (name, origin)) :
    origin.encoded (earned lib h) = some c.auth.state.password := by
  obtain ⟨_, _, f, rfl, rfl, hright⟩ | ⟨f, v, rfl, rfl, hv⟩ | ⟨_, id, _, v, rfl, rfl, hv⟩ |
      ⟨from_, rfl, hheld⟩ := origin_of_credit hknown.auth hchange hcredit
  · rw [straddles, hright, Bool.true_and, decide_eq_false_iff_not, not_not] at hsteady
    exact congrArg some hsteady
  · exact congrArg some (hcurrent.checks f (henabled.1 _ rfl) v hv)
  · exact hcurrent.held id (.consent hv (hwaiting id (henabled.2 _ rfl) v hv))
  · exact hcurrent.held from_ hheld

/-- What a credential was earned with after a call: with what it is given out for, or with what it
was before. -/
theorem earned_cons {x : Action} {name password : String}
    (hnew : ∀ origin, credit lib x (x.act lib c).1 = some (name, origin) →
      origin.encoded (earned lib h) = some password)
    (hold : (∀ origin, credit lib x (x.act lib c).1 ≠ some (name, origin)) →
      earned lib h name = some password) :
    earned lib ((c, x) :: h) name = some password := by
  have hanswer : credit lib (c, x).2 ((calls lib).answer (c, x)) =
      credit lib x (x.act lib c).1 := rfl
  rw [earned, hanswer]
  cases hcredit : credit lib x (x.act lib c).1 with
  | none =>
    apply hold
    rw [hcredit]
    exact nofun
  | some given =>
    obtain ⟨new, origin⟩ := given
    dsimp only
    split_ifs with hname
    · subst hname
      exact hnew origin hcredit
    · apply hold
      intro origin' horigin
      rw [hcredit] at horigin
      cases horigin
      exact hname rfl

theorem current_act {x : Action} (hcurrent : Current lib h c) (hknown : c.Known lib h)
    (henabled : x.Enabled c)
    (hwaiting : ∀ id ∈ c.asks, ∀ v, c.auth.consents.lookup id = some v → v.waiting = true)
    (hfresh : Fresh lib h x) (hsteady : straddles lib c x = false) :
    Current lib ((c, x) :: h) (x.act lib c).2 := by
  have hchange : Change lib c.now x c.auth (x.act lib c).1 (x.act lib c).2.auth := change_act x c
  refine ⟨?_, ?_⟩
  · intro name hname
    obtain hsame | ⟨hash, again, _, _, _, rfl, hbefore, hset, hafter⟩ := password_of_change hchange
    · rw [hsame]
      apply earned_cons
      · intro origin hcredit
        exact earned_credit hcurrent hknown henabled hwaiting hsteady hchange hcredit
      · intro hnone
        obtain hheld | ⟨origin, hcredit⟩ := holds_change hchange hname
        · exact hcurrent.held name hheld
        · exact absurd hcredit (hnone origin)
    · have hsaved : c.auth.state.grants = [] ∨ again = none := by
        cases again with
        | none => exact .inr rfl
        | some err =>
          rw [straddles, Bool.not_eq_false'] at hsteady
          exact .inl (List.isEmpty_iff.1 hsteady)
      exact absurd hname (not_holds_of_set hsaved hbefore hset hafter name)
  · intro f hf v hv
    obtain hsame | ⟨_, _, _, _, _, rfl, hbefore, hset, hafter⟩ := password_of_change hchange
    · rw [hsame]
      obtain hmem | ⟨_, _, _, hsign, _⟩ | ⟨r, rfl, f', hcheck, hbegun⟩ := mem_checks_act hf
      · obtain ⟨v₀, hv₀, _⟩ :=
          consent_of_drawn hknown.auth hfresh hchange (hknown.checks f hmem) hv
        exact hcurrent.checks f hmem v₀ hv₀
      · cases hsign
      · cases hcheck
        obtain ⟨_, ho, _⟩ | ⟨f', _, hf', hencoded, _⟩ :=
          @RemoteAuth.serveConsent_cases c.auth lib c.now r
        · cases ho.symm.trans hbegun
        · cases hf'.symm.trans hbegun
          exact hencoded
    · obtain ⟨_, hv₁, _⟩ := hafter.consents _ _ hv
      rw [hset.consents] at hv₁
      cases hv₁

/-! ## Every run -/

/-- In a run in which no sign-in straddles a change of the password, everything the service holds
was earned with the password it has. -/
theorem earned_currentPassword
    (hrun : Labelled.Run (calls lib) (fun h c x => Fresh lib h x ∧ straddles lib c x = false) {}
      h c)
    {name : String} (hname : c.auth.Holds name) :
    earned lib h name = some c.auth.state.password := by
  have hcurrent : Current lib h c := by
    refine hrun.invariant ⟨?_, nofun⟩ ?_
    · intro name hname
      cases hname with
      | session hk | request hk | consent hk | code hk => cases hk
      | grant hg => cases hg
    · intro h c x hrun hcurrent henabled hallowed
      have hwaiting := waiting_of_run hrun fun _ _ _ hallowed => hallowed.1
      exact current_act hcurrent (known_of_run hrun) henabled hwaiting hallowed.1 hallowed.2
  exact hcurrent.held name hname

section

private def setTo (password : String) : Action :=
  .setPassword (.ok ("hash of " ++ password)) none none password

private def signIn : SignIn :=
  ⟨"", "hash of correct horse battery", "correct horse battery", "", "", "phone"⟩

private def login : Action :=
  .login ⟨"application/json", some "correct horse battery", "", "", "phone"⟩

private def checked : Action :=
  .loginChecked { id := .ok "0123456789abcdef", token := .ok "token", code := .ok "1234" } none
    signIn

/-- A request made between two changes of the password. -/
theorem earned_currentPassword_request :
    earned samplePlatform
      ((calls samplePlatform).play {} [checked, login, setTo "correct horse battery"]).1
      "0123456789abcdef" = some "hash of correct horse battery" := by
  have hplayable : (calls samplePlatform).Playable
      (fun h c x => Fresh samplePlatform h x ∧ straddles samplePlatform c x = false) {}
      [checked, login, setTo "correct horse battery"] := by decide
  have hname : ((calls samplePlatform).play {}
      [checked, login, setTo "correct horse battery"]).2.auth.Holds "0123456789abcdef" :=
    .request (Option.some_get (by decide)).symm
  exact earned_currentPassword hplayable.run hname

/-- The password is changed while a sign-in checks the one before: the sign-in ends with a request
the desktop can still approve. -/
theorem earned_replacedPassword :
    let run := (calls samplePlatform).play {}
      [checked, setTo "staple correct horse", login, setTo "correct horse battery"]
    Labelled.Run (calls samplePlatform) (fun h _ x => Fresh samplePlatform h x) {} run.1 run.2 ∧
      run.2.auth.Holds "0123456789abcdef" ∧
      earned samplePlatform run.1 "0123456789abcdef" = some "hash of correct horse battery" ∧
      run.2.auth.state.password = "hash of staple correct horse" := by
  refine ⟨Labelled.System.Playable.run (by decide), ?_, by decide, by decide⟩
  exact .request (Option.some_get (by decide)).symm

end

end Konnekt.Remote
