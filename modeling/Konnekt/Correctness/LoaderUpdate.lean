import Konnekt.Correctness.PowerGate
import Konnekt.Loader.Update

/-!
# Loader updates under a stopped server

The slot keeps a second update away. That the server is down while its launch files
are rewritten rests on nobody starting it after the update has looked: neither the
slot nor the claim of the backup keeps a start away.
-/

namespace Konnekt.Loader

open Go Threads Server Backup

variable {parseIP : String → Option String} {c c' : Config Host Party} {p : Party}
  {allowed : Config Host Party → Party → Prop} {trace : Trace Host Party}

/-- An update has asked which server is running, and what it does to the launch files has not
returned. -/
def UpdatePhase.underway : UpdatePhase → Bool
  | .current | .report | .release | .returned => false
  | _ => true

/-- The installer has started, and `updateWithRollback` has not returned. -/
def UpdatePhase.rewrites : UpdatePhase → Bool
  | .install | .verify | .rollback | .save => true
  | _ => false

/-- An update is in the background. -/
def UpdatePhase.holdsSlot : UpdatePhase → Bool
  | .current | .check _ | .versions | .slot | .returned => false
  | _ => true

def Party.updates : Party → Bool
  | .update _ _ phase => phase.holdsSlot
  | _ => false

/-- No server is started while an update of it is under way. -/
def NoStart (c : Config Host Party) (p : Party) : Prop :=
  ∀ h id prev, p = .service (.power h (.boot id prev)) →
    ∀ (serverID : ServerID) fullBackup phase, .update serverID fullBackup phase ∈ c.threads →
      phase.underway = true → serverID.1 ≠ id

/-- The launch files of a server are rewritten only while it is down, by one update at a time. -/
structure UpdateSafe (c : Config Host Party) : Prop where
  down : ∀ (id : ServerID) fullBackup phase, .update id fullBackup phase ∈ c.threads →
    phase.rewrites = true → c.shared.service.isRunning id = false
  one : holders Party.updates c ≤ 1

/-! ## The slot -/

theorem ServerID.ne_empty (id : ServerID) : (id : String) ≠ "" := by
  obtain ⟨id, hvalid⟩ := id
  rintro rfl
  cases hvalid

/-- The slot is taken when an update goes into the background and given back at its end. -/
theorem balanced_slot :
    Balanced (loaderSystem parseIP) (fun s => s.updating != "") Party.updates := by
  intro p s p' s' new hstep hheld
  cases hstep with
  | service hactor =>
    have hnew : ∀ l : List Actor, (l.map Party.service).countP Party.updates = 0 := by
      intro l
      rw [List.countP_eq_zero]
      intro u hu
      obtain ⟨a, -, rfl⟩ := List.mem_map.1 hu
      exact Bool.false_ne_true
    rw [List.countP_cons, hnew]
    rfl
  | backup id hbackup => cases hbackup <;> rfl
  | unknown id fullBackup => rfl
  | configured id fullBackup => rfl
  | update id fullBackup hupdate =>
    have hne := id.ne_empty
    cases hupdate with
    | slot =>
      by_cases hfree : s.updating = ""
      · have htaken : ((id : String) != "") = true := by simpa using hne
        simp [hfree, htaken, Party.updates, UpdatePhase.holdsSlot]
      · simp [hfree, Party.updates, UpdatePhase.holdsSlot]
    | release =>
      have hheld := hheld rfl
      simp_all [Party.updates, UpdatePhase.holdsSlot]
    | check current => split <;> rfl
    | start => split <;> rfl
    | backup hbackup => cases hbackup <;> rfl
    | _ => rfl

/-- At most one update is in the background. -/
theorem one_update (hrun : Run (loaderSystem parseIP) allowed hostDown trace c) :
    holders Party.updates c ≤ 1 := by
  have hslot := hrun.holders_eq balanced_slot (fun p hp => ?_) rfl
  · rw [hslot]
    exact Bool.toNat_le _
  · rcases hp with ⟨action, rfl⟩ | ⟨id, rfl⟩ | ⟨id, fullBackup, rfl⟩ <;> rfl

/-! ## The power gate, seen from here -/

/-- Making an instance is all that the others do to the service. -/
def Quiet (svc svc' : Service) : Prop := svc' = svc ∨ ∃ id, svc' = svc.instanceFor id

def Party.actor? : Party → Option Actor
  | .service a => some a
  | _ => none

theorem UpdateStep.quiet {id : ServerID} {fullBackup : Bool} {phase phase' : UpdatePhase}
    {s s' : Host} (hstep : UpdateStep id fullBackup phase s phase' s') :
    Quiet s.service s'.service := by
  cases hstep with
  | start => exact .inr ⟨id, rfl⟩
  | report => exact .inr ⟨id, rfl⟩
  | backup hbackup => cases hbackup <;> exact .inl rfl
  | _ => exact .inl rfl

/-- The service is a component of the whole. -/
def powerComponent (parseIP : String → Option String) :
    Component (loaderSystem parseIP) (powerSystem parseIP) where
  view s := s.service
  part := Party.actor?
  quiet := Quiet
  begins p a hp ha := by
    rcases hp with ⟨action, rfl⟩ | ⟨id, rfl⟩ | ⟨id, fullBackup, rfl⟩ <;> cases ha
    exact ⟨action, rfl⟩
  own p s p' s' new a hstep ha := by
    cases hstep <;> cases ha
    next a' svc' new h =>
      refine ⟨a', rfl, ?_⟩
      have hnew : (new.map Party.service).filterMap Party.actor? = new := by
        rw [List.filterMap_map]
        exact List.filterMap_some
      rw [hnew]
      exact h
  other p s p' s' new hstep ha := by
    cases hstep with
    | service h => cases ha
    | backup id hbackup => cases hbackup <;> exact ⟨rfl, rfl, .inl rfl⟩
    | unknown id fullBackup => exact ⟨rfl, rfl, .inl rfl⟩
    | configured id fullBackup => exact ⟨rfl, rfl, .inl rfl⟩
    | update id fullBackup hupdate => exact ⟨rfl, rfl, hupdate.quiet⟩

theorem Quiet.isRunning {svc svc' : Service} (h : Quiet svc svc') (x : String) :
    svc'.isRunning x = svc.isRunning x := by
  rcases h with rfl | ⟨id, rfl⟩
  · rfl
  · unfold Service.isRunning
    rw [Service.instanceOf_instanceFor]

theorem Quiet.current {svc svc' : Service} (h : Quiet svc svc') :
    svc'.current = svc.current := by
  rcases h with rfl | ⟨id, rfl⟩
  · rfl
  · unfold Service.instanceFor
    split <;> rfl

theorem Quiet.powerMu {svc svc' : Service} (h : Quiet svc svc') : svc'.powerMu = svc.powerMu := by
  rcases h with rfl | ⟨id, rfl⟩
  · rfl
  · unfold Service.instanceFor
    split <;> rfl

theorem Quiet.powerInv {svc svc' : Service} {actors : List Actor} (h : Quiet svc svc')
    (hinv : PowerInv ⟨svc, actors⟩) : PowerInv ⟨svc', actors⟩ where
  one x y hx hy := hinv.one x y ((h.isRunning x).symm.trans hx) ((h.isRunning y).symm.trans hy)
  guarded := hinv.guarded
  seen h' q hmem := (hinv.seen h' q hmem).mono fun x hx => (h.isRunning x).symm.trans hx

theorem Quiet.currentInv {svc svc' : Service} {actors : List Actor} (h : Quiet svc svc')
    (hinv : CurrentInv ⟨svc, actors⟩) : CurrentInv ⟨svc', actors⟩ where
  current x hx := h.current.trans (hinv.current x ((h.isRunning x).symm.trans hx))
  aimed h' q hmem :=
    (hinv.aimed h' q hmem).mono h.current fun x hx => (h.isRunning x).symm.trans hx

/-- A server that runs is the one `current` points to. -/
theorem current_of_isRunning (hrun : Run (loaderSystem parseIP) allowed hostDown trace c)
    {x : String} (hup : c.shared.service.isRunning x = true) : c.shared.service.current = x := by
  have hinv : PowerInv ((powerComponent parseIP).config c) ∧
      Gated ((powerComponent parseIP).config c) ∧
      CurrentInv ((powerComponent parseIP).config c) := by
    refine (powerComponent parseIP).invariant
      (I := fun c => PowerInv c ∧ Gated c ∧ CurrentInv c) ?_ ?_ ?_ ?_ hrun
    · exact ⟨powerInv_servicesDown, rfl, currentInv_servicesDown⟩
    · rintro c a ⟨action, rfl⟩ ⟨hinv, hgated, hcurrent⟩
      exact ⟨hinv.call action, hgated.call action, hcurrent.call action⟩
    · rintro c a c' hact ⟨hinv, hgated, hcurrent⟩
      exact ⟨hinv.act hgated hact, hact.holders_eq balanced_gate hgated,
        hcurrent.act hinv hgated hact⟩
    · rintro svc svc' actors hquiet ⟨hinv, hgated, hcurrent⟩
      refine ⟨hquiet.powerInv hinv, ?_, hquiet.currentInv hcurrent⟩
      rw [Gated, hquiet.powerMu]
      exact hgated
  exact hinv.2.2.current x hup

/-! ## An update that is under way -/

/-- What an update has seen of its server: that another one is running, or that it is down. -/
def UpdatePhase.Found (id : ServerID) (svc : Service) : UpdatePhase → Prop
  | .check answering => answering = id ∨ svc.isRunning id = false
  | phase => phase.underway = true → svc.isRunning id = false

theorem UpdatePhase.Found.mono {id : ServerID} {svc svc' : Service} {phase : UpdatePhase}
    (h : phase.Found id svc)
    (hle : phase.underway = true → svc'.isRunning id = true → svc.isRunning id = true) :
    phase.Found id svc' := by
  have hdown : phase.underway = true → svc.isRunning id = false → svc'.isRunning id = false :=
    fun hunderway hdown => Bool.eq_false_iff.2 fun hup =>
      Bool.eq_false_iff.1 hdown (hle hunderway hup)
  cases phase with
  | check answering => exact h.imp_right (hdown rfl)
  | _ => exact fun hunderway => hdown hunderway (h hunderway)

/-- An update leaves the servers as they are. -/
theorem UpdateStep.isRunning {id : ServerID} {fullBackup : Bool} {phase phase' : UpdatePhase}
    {s s' : Host} (hstep : UpdateStep id fullBackup phase s phase' s') (x : String) :
    s'.service.isRunning x = s.service.isRunning x :=
  hstep.quiet.isRunning x

/-- What an update sees when it looks, and that it goes on only with a server that is down. -/
theorem UpdateStep.found {id : ServerID} {fullBackup : Bool} {phase phase' : UpdatePhase}
    {s s' : Host} (hstep : UpdateStep id fullBackup phase s phase' s')
    (hcurrent : s.service.isRunning id = true → s.service.current = id)
    (h : phase.Found id s.service) : phase'.Found id s'.service := by
  cases hstep with
  | current =>
    cases hup : s.service.isRunning id with
    | true => exact .inl (hcurrent hup)
    | false => exact .inr hup
  | check current =>
    split
    · exact fun hunderway => nomatch hunderway
    · next hactive =>
      intro _
      rcases h with rfl | hdown
      · unfold activeServerID at hactive
        rw [Bool.eq_false_iff]
        intro hup
        exact hactive (if_pos hup)
      · exact hdown
  | unmanaged => exact fun hunderway => nomatch hunderway
  | slot =>
    split
    · exact fun _ => h rfl
    · exact fun hunderway => nomatch hunderway
  | start =>
    have hdown : (s.service.instanceFor id).isRunning id = false := by
      rw [Quiet.isRunning (.inr ⟨id, rfl⟩)]
      exact h rfl
    split <;> exact fun _ => hdown
  | backup hbackup => cases hbackup <;> exact fun _ => h rfl
  | report => exact fun hunderway => nomatch hunderway
  | release => exact fun hunderway => nomatch hunderway
  | _ => exact fun _ => h rfl

/-- Every update under way has found its server down. -/
def UpdatesFound (c : Config Host Party) : Prop :=
  ∀ (id : ServerID) fullBackup phase, .update id fullBackup phase ∈ c.threads →
    phase.Found id c.shared.service

/-- A step of anyone starts a server only if it is a boot of it. -/
theorem Party.Step.isRunning {p' : Party} {s s' : Host} {new : List Party}
    (hstep : Party.Step parseIP p s p' s' new) {x : String}
    (hx : s'.service.isRunning x = true) :
    s.service.isRunning x = true ∨ ∃ h prev, p = .service (.power h (.boot x prev)) := by
  cases hstep with
  | service hactor =>
    rcases hactor.isRunning hx with hup | ⟨h, prev, rfl⟩
    · exact .inl hup
    · exact .inr ⟨h, prev, rfl⟩
  | backup id hbackup => cases hbackup <;> exact .inl hx
  | unknown id fullBackup => exact .inl hx
  | configured id fullBackup => exact .inl hx
  | update id fullBackup hupdate => exact .inl ((hupdate.isRunning x).symm.trans hx)

/-- An update is there after a step if it was, or if it is what acted. -/
theorem Party.Step.update_of_new {p' : Party} {s s' : Host} {new : List Party}
    (hstep : Party.Step parseIP p s p' s' new) {id : ServerID} {fullBackup : Bool}
    {phase : UpdatePhase}
    (hmem : .update id fullBackup phase = p' ∨ .update id fullBackup phase ∈ new) :
    phase = .current ∨ ∃ before, p = .update id fullBackup before ∧
      UpdateStep id fullBackup before s phase s' := by
  cases hstep with
  | service hactor =>
    rcases hmem with heq | hnew
    · cases heq
    · obtain ⟨a, -, ha⟩ := List.mem_map.1 hnew
      cases ha
  | backup id' hbackup => rcases hmem with heq | hnew <;> contradiction
  | unknown id' fullBackup' => rcases hmem with heq | hnew <;> contradiction
  | configured id' fullBackup' =>
    rcases hmem with heq | hnew
    · cases heq
      exact .inl rfl
    · cases hnew
  | update id' fullBackup' hupdate =>
    rcases hmem with heq | hnew
    · cases heq
      exact .inr ⟨_, rfl, hupdate⟩
    · cases hnew

theorem UpdatesFound.act (h : UpdatesFound c)
    (hcurrent : ∀ x, c.shared.service.isRunning x = true → c.shared.service.current = x)
    (hnostart : NoStart c p) (hact : Acts (loaderSystem parseIP) c p c') : UpdatesFound c' := by
  obtain ⟨p', new, hstep, hmem⟩ := hact.exists_step
  intro id fullBackup phase hin
  rcases hmem _ hin with hthere | hnew
  · refine (h id fullBackup phase hthere).mono fun hunderway hup => ?_
    refine (hstep.isRunning hup).resolve_right ?_
    rintro ⟨hold, prev, rfl⟩
    exact hnostart hold id prev rfl id fullBackup phase hthere hunderway rfl
  · rcases hstep.update_of_new hnew with rfl | ⟨before, rfl, hupdate⟩
    · exact fun hunderway => nomatch hunderway
    · exact hupdate.found (hcurrent id) (h id fullBackup before hact.mem)

theorem updatesFound (hrun : Run (loaderSystem parseIP) NoStart hostDown trace c) :
    UpdatesFound c := by
  induction hrun with
  | nil => exact fun id fullBackup phase hmem => nomatch hmem
  | call hrun p hp ih =>
    intro id fullBackup phase hmem
    rcases List.mem_append.1 hmem with hold | hnew
    · exact ih id fullBackup phase hold
    · obtain rfl := List.mem_singleton.1 hnew
      rcases hp with ⟨action, heq⟩ | ⟨id', heq⟩ | ⟨id', full', heq⟩ <;> cases heq
  | act hrun hnostart hact ih =>
    exact ih.act (fun x hup => current_of_isRunning hrun hup) hnostart hact

/-- In every run in which nobody starts a server while an update of it is under way, launch files
are rewritten only while their server is down, by one update at a time. -/
theorem updateSafe_of_noStart (hrun : Run (loaderSystem parseIP) NoStart hostDown trace c) :
    UpdateSafe c where
  down id fullBackup phase hmem hrewrites := by
    have hfound := updatesFound hrun id fullBackup phase hmem
    cases phase <;> first | exact hfound rfl | cases hrewrites
  one := one_update hrun

/-! ## A start during the download -/

/-- An update that has come to the installer, when no server is started: every step of it is
allowed. -/
theorem updateSafe_of_noStart_installs : ∃ trace c,
    Run (loaderSystem fun _ => none) NoStart hostDown trace c ∧
      c.threads = [.update ⟨"s1", by decide⟩ false .install] ∧ UpdateSafe c := by
  have hquiet : ∀ c p, (∀ a, p ≠ .service a) → NoStart c p := fun c p hp h id prev heq =>
    absurd heq (hp _)
  have hbegin : Run (loaderSystem fun _ => none) NoStart hostDown [] _ := .nil
  have hcall := (hbegin.call (.call "s1" false) (.inr (.inr ⟨_, _, rfl⟩))).actAt [] [] rfl
    (hquiet _ _ (fun a h => nomatch h)) (.configured ⟨"s1", by decide⟩ false)
  have hcurrent := hcall.actAt [] [] rfl (hquiet _ _ (fun a h => nomatch h)) (.update _ _ .current)
  have hcheck := hcurrent.actAt [] [] rfl (hquiet _ _ (fun a h => nomatch h))
    (.update _ _ (.check ""))
  have hversions := hcheck.actAt [] [] rfl (hquiet _ _ (fun a h => nomatch h))
    (.update _ _ .versions)
  have hslot := hversions.actAt [] [] rfl (hquiet _ _ (fun a h => nomatch h)) (.update _ _ .slot)
  have hstart := hslot.actAt [] [] rfl (hquiet _ _ (fun a h => nomatch h)) (.update _ _ .start)
  have hsnapshot := hstart.actAt [] [] rfl (hquiet _ _ (fun a h => nomatch h))
    (.update _ _ .snapshot)
  have hdownload := hsnapshot.actAt [] [] rfl (hquiet _ _ (fun a h => nomatch h))
    (.update _ _ .download)
  exact ⟨_, _, hdownload, rfl, updateSafe_of_noStart hdownload⟩

/-- The server is started while an update of it downloads the installer, and is running when the
installer starts. -/
theorem not_updateSafe_started :
    ¬ ∀ trace c, Run (loaderSystem fun _ => none) Unrestricted hostDown trace c → UpdateSafe c := by
  intro h
  have hbegin : Run (loaderSystem fun _ => none) Unrestricted hostDown [] _ := .nil
  have hcall := (hbegin.call (.call "s1" false) (.inr (.inr ⟨_, _, rfl⟩))).actAt [] [] rfl
    trivial (.configured ⟨"s1", by decide⟩ false)
  have hcurrent := hcall.actAt [] [] rfl trivial (.update _ _ .current)
  have hcheck := hcurrent.actAt [] [] rfl trivial (.update _ _ (.check ""))
  have hversions := hcheck.actAt [] [] rfl trivial (.update _ _ .versions)
  have hslot := hversions.actAt [] [] rfl trivial (.update _ _ .slot)
  have hstart := hslot.actAt [] [] rfl trivial (.update _ _ .start)
  have hsnapshot := hstart.actAt [] [] rfl trivial (.update _ _ .snapshot)
  have henter := (hsnapshot.call (.service (.power false (.enter (.start "s1"))))
    (.inl ⟨_, rfl⟩)).actAt [.update ⟨"s1", by decide⟩ false .download] [] rfl trivial
    (.service (.power (.enter _ rfl)))
  have hkeys := henter.actAt [.update ⟨"s1", by decide⟩ false .download] [] rfl trivial
    (.service (.power (.snapshot (.start "s1") ["s1", ""] (.refl _))))
  have hscan := hkeys.actAt [.update ⟨"s1", by decide⟩ false .download] [] rfl trivial
    (.service (.power (.scan (.start "s1") "s1" [""] [])))
  have hscan' := hscan.actAt [.update ⟨"s1", by decide⟩ false .download] [] rfl trivial
    (.service (.power (.scan (.start "s1") "" [] [])))
  have hscanned := hscan'.actAt [.update ⟨"s1", by decide⟩ false .download] [] rfl trivial
    (.service (.power (.scanned (.start "s1") [])))
  have hfind := hscanned.actAt [.update ⟨"s1", by decide⟩ false .download] [] rfl trivial
    (.service (.power (.find "s1")))
  have hclaim := hfind.actAt [.update ⟨"s1", by decide⟩ false .download] [] rfl trivial
    (.service (.power (.claim "s1")))
  have hboot := hclaim.actAt [.update ⟨"s1", by decide⟩ false .download] [] rfl trivial
    (.service (.power (.boot "s1" "" .boots)))
  have hinstall := hboot.actAt [] _ rfl trivial (.update _ _ .download)
  have hdown := (h _ _ hinstall).down ⟨"s1", by decide⟩ false .install List.mem_cons_self rfl
  cases hdown

end Konnekt.Loader
