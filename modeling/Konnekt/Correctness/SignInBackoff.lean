import Konnekt.Remote.Buckets

/-!
# How fast passwords can be tried

Checks go through a bucket each: one for an approved device, one for all other
browsers, one for the consent pages. A bucket lets one check through at a time, and
after enough failures only a while after the last one. Dropping a bucket while a check
of it is in flight lets more through.
-/

namespace Konnekt.Remote

open Go

variable {lib : Platform} {h : History} {c : Config} {k : String}

/-! ## The wait -/

/-- The wait doubles up to the cap. -/
theorem remoteLoginWait_eq (failures : Nat) :
    remoteLoginWait failures = min (remoteLoginBase * 2 ^ failures) remoteLoginCap := by
  unfold remoteLoginWait
  split_ifs with hover
  · rfl
  · have hlarge : remoteLoginCap ≤ remoteLoginBase * 2 ^ failures := by
      calc remoteLoginCap ≤ remoteLoginBase * 2 ^ 16 := by decide
        _ ≤ remoteLoginBase * 2 ^ failures :=
          Nat.mul_le_mul_left _ (Nat.pow_le_pow_right (by decide) (Nat.not_lt.1 hover))
    exact (Nat.min_eq_right hlarge).symm

theorem remoteLoginWait_mono {m n : Nat} (h : m ≤ n) : remoteLoginWait m ≤ remoteLoginWait n := by
  rw [remoteLoginWait_eq, remoteLoginWait_eq]
  exact min_le_min_right _ (Nat.mul_le_mul_left _ (Nat.pow_le_pow_right (by decide) h))

theorem remoteLoginWait_le (failures : Nat) : remoteLoginWait failures ≤ remoteLoginCap := by
  rw [remoteLoginWait_eq]
  exact Nat.min_le_right _ _

theorem remoteLoginCap_le : remoteLoginCap ≤ remoteLoginQuiet := by decide

/-! ## Attempts -/

/-- A check begins. -/
def Admits (lib : Platform) (e : Config × Action) (check : Check) : Prop :=
  (e.2.act lib e.1).2.checks = check :: e.1.checks

/-- A sign-in with the cookie of an approved device. -/
def Bears (lib : Platform) (device : String) (e : Config × Action) : Prop :=
  ∃ r, e.2 = .login r ∧
    ∃ d, e.1.auth.deviceByTokenLocked lib r.deviceToken = some d ∧ d.id = device

/-- A check ends with a wrong password, and its bucket counts it. -/
def Counts (lib : Platform) (k : String) (e : Config × Action) : Prop :=
  (∃ check, e.2.ends = some check ∧ check.key = k ∧ check.right lib = false) ∧ e.1.bucket k ≠ none

/-- The failures of a bucket are forgotten: a password was right, or the bucket is dropped. -/
def Resets (lib : Platform) (k : String) (e : Config × Action) : Prop :=
  (∃ check, e.2.ends = some check ∧ check.key = k ∧ check.right lib = true) ∨
    e.2.Drops lib e.1 k

/-- So many counted failures, the last one at a time, with no quiet period between two of them
and nothing since that forgets them. -/
inductive Streak (lib : Platform) (k : String) : Nat → Nat → History → Prop
  | first {h : History} {e : Config × Action} (hcounts : Counts lib k e) :
      Streak lib k 1 e.1.now (e :: h)
  | again {n t : Nat} {h : History} {e : Config × Action} (hstreak : Streak lib k n t h)
      (hcounts : Counts lib k e) (hquick : e.1.now ≤ t + remoteLoginQuiet) :
      Streak lib k (n + 1) e.1.now (e :: h)
  | later {n t : Nat} {h : History} {e : Config × Action} (hstreak : Streak lib k n t h)
      (hkept : ¬ Resets lib k e) : Streak lib k n t (e :: h)

/-! ## Locks -/

theorem now_le_act (x : Action) (c : Config) : c.now ≤ (x.act lib c).2.now := by
  cases x with
  | tick elapsed => exact Nat.le_add_right c.now elapsed
  | login r =>
    dsimp only [Action.act, Config.begin]
    split <;> exact Nat.le_refl _
  | consent r =>
    dsimp only [Action.act, Config.begin]
    split <;> exact Nat.le_refl _
  | _ => exact Nat.le_refl _

/-- What a bucket remembers of its failures. -/
structure Remembers (n t now : Nat) (b : LoginBucket) : Prop where
  last : t ≤ b.lastFailure
  past : t ≤ now
  failures : n ≤ b.failures ∨ t + remoteLoginQuiet < now
  locked : remoteLoginFree ≤ n → t + remoteLoginWait (n - remoteLoginFree) ≤ b.lockedUntil

namespace Remembers

variable {n t now : Nat} {b : LoginBucket}

theorem later (hb : Remembers n t now b) {now' : Nat} (hle : now ≤ now') :
    Remembers n t now' b where
  last := hb.last
  past := hb.past.trans hle
  failures := hb.failures.imp_right fun hquiet => lt_of_lt_of_le hquiet hle
  locked := hb.locked

theorem fresh (hb : Remembers n t now b) : Remembers n t now (b.fresh now) where
  last := by simpa using hb.last
  past := hb.past
  failures := by
    unfold LoginBucket.fresh
    split_ifs with hold
    · exact .inr (lt_of_le_of_lt (Nat.add_le_add_right hb.last _) hold.2)
    · exact hb.failures
  locked := by simpa using hb.locked

theorem busy (hb : Remembers n t now b) : Remembers n t now { b with busy := true } :=
  ⟨hb.last, hb.past, hb.failures, hb.locked⟩

/-- Another failure does not shorten the lock. -/
theorem failed (hb : Remembers n t now b) : Remembers n t now (b.ended now false) := by
  unfold LoginBucket.ended
  simp only [Bool.false_eq_true, if_false]
  have hfailures : n ≤ b.failures + 1 ∨ t + remoteLoginQuiet < now :=
    hb.failures.imp_left fun hle => hle.trans (Nat.le_succ _)
  split_ifs with hfree
  · refine ⟨hb.past, hb.past, hfailures, fun _ => ?_⟩
    dsimp only
    obtain hle | hquiet := hfailures
    · exact Nat.add_le_add hb.past (remoteLoginWait_mono (Nat.sub_le_sub_right hle _))
    · have hwait := (remoteLoginWait_le (n - remoteLoginFree)).trans remoteLoginCap_le
      omega
  · exact ⟨hb.past, hb.past, hfailures, hb.locked⟩

/-- A failure is remembered. -/
theorem first : Remembers 1 now now (b.ended now false) := by
  unfold LoginBucket.ended
  simp only [Bool.false_eq_true, if_false]
  split_ifs with hfree
  · exact ⟨le_refl _, le_refl _, .inl (Nat.le_add_left _ _), fun hone => absurd hone (by decide)⟩
  · exact ⟨le_refl _, le_refl _, .inl (Nat.le_add_left _ _), fun hone => absurd hone (by decide)⟩

/-- A failure soon after the others is one more. -/
theorem again (hb : Remembers n t now b) (hquick : now ≤ t + remoteLoginQuiet) :
    Remembers (n + 1) now now (b.ended now false) := by
  have hfailures : n + 1 ≤ b.failures + 1 :=
    Nat.succ_le_succ (hb.failures.resolve_right (Nat.not_lt.2 hquick))
  unfold LoginBucket.ended
  simp only [Bool.false_eq_true, if_false]
  split_ifs with hfree
  · refine ⟨le_refl _, le_refl _, .inl hfailures, fun _ => ?_⟩
    exact Nat.add_le_add_left (remoteLoginWait_mono (Nat.sub_le_sub_right hfailures _)) now
  · exact ⟨le_refl _, le_refl _, .inl hfailures, fun hmore => absurd (hmore.trans hfailures) hfree⟩

end Remembers

/-- What one call does to a bucket that remembers its failures. -/
theorem remembers_of_moves {n t : Nat} {b : LoginBucket} {x : Action}
    (hbucket : c.bucket k = some b) (hb : Remembers n t c.now b)
    (hkept : ¬ Resets lib k (c, x)) (hmoves : Moves lib k c x (x.act lib c).2) :
    ∃ b', (x.act lib c).2.bucket k = some b' ∧ Remembers n t (x.act lib c).2.now b' := by
  have hnow : c.now ≤ (x.act lib c).2.now := now_le_act x c
  cases hmoves with
  | idle hsame => exact ⟨b, hsame.trans hbucket, hb.later hnow⟩
  | refused hb₀ _ hnew =>
    rw [hbucket, Option.getD_some] at hb₀
    exact ⟨_, hnew, hb₀ ▸ hb.fresh.later hnow⟩
  | begun hb₀ _ _ hnew =>
    rw [hbucket, Option.getD_some] at hb₀
    exact ⟨_, hnew, hb₀ ▸ hb.fresh.busy.later hnow⟩
  | @ended check hends hkey hnew =>
    rw [hbucket, Option.map_some] at hnew
    have hwrong : check.right lib = false :=
      Bool.eq_false_iff.2 fun hright => hkept (.inl ⟨check, hends, hkey, hright⟩)
    rw [hwrong] at hnew
    exact ⟨_, hnew, hb.failed.later hnow⟩
  | dropped hdrops => exact absurd (.inr hdrops) hkept

/-- A counted failure, of its bucket. -/
theorem bucket_of_counts {x : Action} (hcounts : Counts lib k (c, x)) :
    ∃ b, c.bucket k = some b ∧ (x.act lib c).2.bucket k = some (b.ended c.now false) := by
  obtain ⟨⟨check, hends, rfl, hwrong⟩, hthere⟩ := hcounts
  obtain ⟨b, hb⟩ := Option.ne_none_iff_exists'.1 hthere
  refine ⟨b, hb, ?_⟩
  rw [bucket_of_ends hends, hwrong]
  exact (congrArg (Option.map _) hb).trans rfl

/-- A bucket remembers every streak of failures. -/
theorem remembers_of_run {allowed : History → Config → Action → Prop}
    (hrun : Labelled.Run (calls lib) allowed {} h c) {n t : Nat} (hstreak : Streak lib k n t h) :
    ∃ b, c.bucket k = some b ∧ Remembers n t c.now b := by
  refine hrun.invariant (P := fun h c => ∀ n t, Streak lib k n t h →
    ∃ b, c.bucket k = some b ∧ Remembers n t c.now b) ?_ ?_ n t hstreak
  · intro n t hstreak
    cases hstreak
  · intro h c x hrun ih _ _ n t hstreak
    cases hstreak with
    | first hcounts =>
      obtain ⟨b, _, hnew⟩ := bucket_of_counts hcounts
      exact ⟨_, hnew, Remembers.first.later (now_le_act x c)⟩
    | again hstreak hcounts hquick =>
      obtain ⟨b, hb, hnew⟩ := bucket_of_counts hcounts
      obtain ⟨b₀, hb₀, hremembers⟩ := ih _ _ hstreak
      obtain rfl := Option.some.inj (hb.symm.trans hb₀)
      exact ⟨_, hnew, (hremembers.again hquick).later (now_le_act x c)⟩
    | later hstreak hkept =>
      obtain ⟨b, hb, hremembers⟩ := ih _ _ hstreak
      exact remembers_of_moves hb hremembers hkept moves_act

/-! ## Checks in flight -/

theorem unlocked_of_admits {x : Action} {check : Check} (hadmits : Admits lib (c, x) check) :
    ((c.bucket check.key).getD {}).lockedUntil ≤ c.now := by
  have hchecks : (x.act lib c).2.inFlight check.key = check :: c.inFlight check.key := by
    rw [Config.inFlight, hadmits]
    exact List.filter_cons_of_pos (decide_eq_true rfl)
  have hlength := congrArg List.length hchecks
  rw [List.length_cons] at hlength
  have hmoves : Moves lib check.key c x (x.act lib c).2 := moves_act
  cases hmoves with
  | begun hb hfree => exact hb ▸ hfree
  | idle _ hsame => exact absurd (hsame ▸ hlength) (by omega)
  | refused _ _ _ hsame => exact absurd (hsame ▸ hlength) (by omega)
  | dropped _ _ hsame => exact absurd (hsame ▸ hlength) (by omega)
  | @ended ended _ _ _ herase =>
    have hle := List.length_erase_le (a := ended) (l := c.inFlight check.key)
    rw [herase] at hlength
    omega

/-- A bucket that is busy has a check in flight. -/
theorem inFlight_of_busy {allowed : History → Config → Action → Prop}
    (hrun : Labelled.Run (calls lib) allowed {} h c) {b : LoginBucket}
    (hb : c.bucket k = some b) (hbusy : b.busy = true) : c.inFlight k ≠ [] := by
  refine hrun.invariant (P := fun _ c => ∀ b, c.bucket k = some b → b.busy = true →
    c.inFlight k ≠ []) ?_ ?_ b hb hbusy
  · intro b hb
    cases hb
  · intro h c x _ ih _ _ b hb hbusy
    have hmoves : Moves lib k c x (x.act lib c).2 := moves_act
    have hb : (x.act lib c).2.bucket k = some b := hb
    cases hmoves with
    | idle hsame hchecks => exact hchecks ▸ ih b (hsame.symm.trans hb) hbusy
    | refused hb₀ _ hnew hchecks =>
      obtain rfl := Option.some.inj (hnew.symm.trans hb)
      rw [LoginBucket.fresh_busy] at hbusy
      cases hbucket : c.bucket k with
      | none =>
        rw [hb₀, hbucket] at hbusy
        cases hbusy
      | some b₁ =>
        rw [hb₀, hbucket] at hbusy
        exact hchecks ▸ ih b₁ hbucket hbusy
    | begun _ _ _ _ hchecks => exact hchecks ▸ List.cons_ne_nil _ _
    | ended _ _ hnew =>
      rw [hnew] at hb
      obtain ⟨b₀, _, rfl⟩ := Option.map_eq_some_iff.1 hb
      rw [LoginBucket.ended_busy] at hbusy
      cases hbusy
    | dropped _ hnone =>
      rw [hnone] at hb
      cases hb

/-- No bucket is dropped while a check of it is in flight. -/
def KeepsBusy (lib : Platform) (c : Config) (x : Action) : Prop :=
  ∀ check ∈ c.checks, ¬ x.Drops lib c check.key

instance (x : Action) : Decidable (KeepsBusy lib c x) :=
  inferInstanceAs (Decidable (∀ _ ∈ _, _))

/-- At most one check is in flight, and its bucket is busy with it. -/
structure Exclusive (k : String) (c : Config) : Prop where
  one : (c.inFlight k).length ≤ 1
  busy : c.inFlight k ≠ [] → ∃ b, c.bucket k = some b ∧ b.busy = true

theorem exclusive_of_moves {x : Action} {c' : Config} (hexclusive : Exclusive k c)
    (henabled : x.Enabled c) (hkept : KeepsBusy lib c x) (hmoves : Moves lib k c x c') :
    Exclusive k c' := by
  cases hmoves with
  | idle hsame hchecks => exact ⟨hchecks ▸ hexclusive.one, hchecks ▸ hsame ▸ hexclusive.busy⟩
  | refused hb _ hnew hchecks =>
    refine ⟨hchecks ▸ hexclusive.one, fun hsome => ⟨_, hnew, ?_⟩⟩
    rw [hchecks] at hsome
    obtain ⟨b, hbucket, hbusy⟩ := hexclusive.busy hsome
    rw [LoginBucket.fresh_busy, hb, hbucket]
    exact hbusy
  | @begun b check hb _ hidle hnew hchecks =>
    refine ⟨?_, fun _ => ⟨_, hnew, rfl⟩⟩
    -- A bucket that is not busy has none in flight.
    have hnone : c.inFlight k = [] := by
      by_contra hsome
      obtain ⟨b', hbucket, hbusy⟩ := hexclusive.busy hsome
      rw [hb, hbucket] at hidle
      exact Bool.false_ne_true (hidle.symm.trans hbusy)
    rw [hchecks, hnone]
    exact Nat.le_refl 1
  | @ended check hends hkey _ hchecks =>
    have hmem : check ∈ c.inFlight k :=
      List.mem_filter.2 ⟨henabled.1 check hends, decide_eq_true hkey⟩
    have hlength := List.length_erase_of_mem hmem
    have hone := hexclusive.one
    have hnone : c'.inFlight k = [] := by
      rw [hchecks]
      exact List.length_eq_zero_iff.1 (by omega)
    exact ⟨hnone ▸ Nat.zero_le 1, fun hsome => absurd hnone hsome⟩
  | dropped hdrops _ hchecks =>
    have hnone : c.inFlight k = [] := by
      refine List.filter_eq_nil_iff.2 fun check hcheck hkey => ?_
      obtain rfl := of_decide_eq_true hkey
      exact hkept check hcheck hdrops
    rw [hnone] at hchecks
    exact ⟨hchecks ▸ Nat.zero_le 1, fun hsome => absurd hchecks hsome⟩

theorem exclusive_of_run {allowed : History → Config → Action → Prop}
    (hrun : Labelled.Run (calls lib) allowed {} h c)
    (hle : ∀ h c x, allowed h c x → KeepsBusy lib c x) : Exclusive k c := by
  refine hrun.invariant (P := fun _ c => Exclusive k c)
    ⟨Nat.zero_le 1, fun hsome => absurd rfl hsome⟩ ?_
  intro h c x _ hexclusive henabled hallowed
  exact exclusive_of_moves hexclusive henabled (hle h c x hallowed) moves_act

/-! ## Whose attempts count -/

/-- The lock of a bucket comes of a counted failure. -/
theorem counted_of_lock {allowed : History → Config → Action → Prop}
    (hrun : Labelled.Run (calls lib) allowed {} h c) {b : LoginBucket}
    (hb : c.bucket k = some b) (hlocked : c.now < b.lockedUntil) :
    ∃ e ∈ h, Counts lib k e ∧ b.lockedUntil ≤ e.1.now + remoteLoginCap := by
  refine (hrun.invariant (P := fun h c => ∀ b, c.bucket k = some b → b.lockedUntil = 0 ∨
    ∃ e ∈ h, Counts lib k e ∧ b.lockedUntil ≤ e.1.now + remoteLoginCap) ?_ ?_ b hb).resolve_left
      (by omega)
  · intro b hb
    cases hb
  · intro h c x _ ih _ _ b hb
    have ih : ∀ b, c.bucket k = some b → b.lockedUntil = 0 ∨ ∃ e ∈ (c, x) :: h, Counts lib k e ∧
        b.lockedUntil ≤ e.1.now + remoteLoginCap := by
      intro b hb
      refine (ih b hb).imp_right ?_
      rintro ⟨e, he, hcounts⟩
      exact ⟨e, List.mem_cons_of_mem _ he, hcounts⟩
    have hget : ((c.bucket k).getD {}).lockedUntil = 0 ∨ ∃ e ∈ (c, x) :: h, Counts lib k e ∧
        ((c.bucket k).getD {}).lockedUntil ≤ e.1.now + remoteLoginCap := by
      cases hbucket : c.bucket k with
      | none => exact .inl rfl
      | some b => exact ih b hbucket
    have hmoves : Moves lib k c x (x.act lib c).2 := moves_act
    have hb : (x.act lib c).2.bucket k = some b := hb
    cases hmoves with
    | idle hsame => exact ih b (hsame.symm.trans hb)
    | refused hb₀ _ hnew =>
      obtain rfl := Option.some.inj (hnew.symm.trans hb)
      rw [LoginBucket.fresh_lockedUntil, hb₀]
      exact hget
    | begun hb₀ _ _ hnew =>
      obtain rfl := Option.some.inj (hnew.symm.trans hb)
      dsimp only
      rw [LoginBucket.fresh_lockedUntil, hb₀]
      exact hget
    | @ended check hends hkey hnew =>
      rw [hnew] at hb
      obtain ⟨b₀, hb₀, rfl⟩ := Option.map_eq_some_iff.1 hb
      cases hright : check.right lib with
      | true => exact .inl rfl
      | false =>
        have hcounts : Counts lib k (c, x) :=
          ⟨⟨check, hends, hkey, hright⟩, Option.ne_none_iff_exists'.2 ⟨b₀, hb₀⟩⟩
        unfold LoginBucket.ended
        simp only [Bool.false_eq_true, if_false]
        split_ifs with hfree
        · exact .inr ⟨_, List.mem_cons_self, hcounts,
            Nat.add_le_add_left (remoteLoginWait_le _) c.now⟩
        · exact ih b₀ hb₀
    | dropped _ hnone =>
      rw [hnone] at hb
      cases hb

/-- A device's id is sixteen digits. -/
theorem length_of_device (hrun : Labelled.Run (calls lib) (fun h c x => Fresh lib h x ∧
      KeepsBusy lib c x) {} h c) :
    ∀ d ∈ c.auth.state.devices, d.id.length = 16 := by
  refine hrun.invariant (P := fun _ c => ∀ d ∈ c.auth.state.devices, d.id.length = 16) ?_ ?_
  · exact fun _ hd => nomatch hd
  · intro h c x _ ih _ hallowed d hd
    have hkeep : ∀ {a b : RemoteAuth}, Keeps a b → (∀ d ∈ a.state.devices, d.id.length = 16) →
        ∀ d ∈ b.state.devices, d.id.length = 16 := by
      intro a b hkeeps ha d hd
      obtain ⟨d₀, hd₀, hcore⟩ := hkeeps.mem_devices hd
      obtain ⟨_, rfl⟩ := DeviceRecord.of_core hcore
      exact ha d₀ hd₀
    have hchange : Change lib c.now x c.auth (x.act lib c).1 (x.act lib c).2.auth := change_act x c
    generalize (x.act lib c).1 = o at hchange
    cases hchange with
    | kept _ hkeeps => exact hkeep hkeeps ih d hd
    | added hbefore hadds hafter =>
      have hmid := hkeep hbefore ih
      refine hkeep hafter ?_ d hd
      cases hadds with
      | passwordSet hset => rw [hset.devices]; exact hmid
      | approved _ _ hid hnew =>
        intro d hd
        obtain hd | hd := List.mem_append.1 hd
        · exact hmid d hd
        · rw [List.mem_singleton.1 hd, hnew]
          exact hallowed.1.id _ (by rw [Action.draws, hid]; rfl)
      | _ => exact hmid

/-- A check in flight under a device's key began with that device's cookie. -/
theorem borne_of_run {allowed : History → Config → Action → Prop}
    (hrun : Labelled.Run (calls lib) allowed {} h c) :
    ∀ check ∈ c.checks, check.key ≠ "" → check.key ≠ remoteConsentKey →
      ∃ e ∈ h, Bears lib check.key e ∧ Admits lib e check := by
  refine hrun.invariant (P := fun h c => ∀ check ∈ c.checks, check.key ≠ "" →
    check.key ≠ remoteConsentKey → ∃ e ∈ h, Bears lib check.key e ∧ Admits lib e check) nofun ?_
  intro h c x _ ih _ _ check hcheck hshared hconsent
  obtain hmem | ⟨r, rfl, f, rfl, hbegun⟩ | ⟨_, _, f, rfl, _⟩ := mem_checks_act hcheck
  · obtain ⟨e, he, hrest⟩ := ih check hmem hshared hconsent
    exact ⟨e, List.mem_cons_of_mem _ he, hrest⟩
  · refine ⟨_, List.mem_cons_self, ⟨r, rfl, ?_⟩, ?_⟩
    · obtain ⟨_, ho, _⟩ | ⟨f', hf', _, _, hkey, _⟩ := @RemoteAuth.serveLogin_cases c.auth lib c.now r
      · cases ho.symm.trans hbegun
      cases hf'.symm.trans hbegun
      change f.key ≠ "" at hshared
      rw [hkey] at hshared
      change ∃ d, c.auth.deviceByTokenLocked lib r.deviceToken = some d ∧ d.id = f.key
      rw [hkey]
      cases hdevice : c.auth.deviceByTokenLocked lib r.deviceToken with
      | none =>
        rw [hdevice] at hshared
        exact absurd rfl hshared
      | some d => exact ⟨d, rfl, rfl⟩
    · dsimp only [Admits, Action.act, Config.begin]
      rw [Prod.map_fst, hbegun]
      rfl
  · exact absurd rfl hconsent

/-- A sign-in that has to wait finds its bucket locked or busy. -/
theorem refused_of_retry {r : LoginRequest} {d : DeviceRecord} {wait : Nat}
    (hd : c.auth.deviceByTokenLocked lib r.deviceToken = some d)
    (hretry : ((Action.login r).act lib c).1 = .retry wait) :
    ∃ b, c.bucket d.id = some b ∧ (c.now < b.lockedUntil ∨ b.busy = true) := by
  have hanswer : (c.auth.serveLogin lib c.now r).1 = .error (.retry wait) := by
    dsimp only [Action.act, Config.begin] at hretry
    cases hserve : (c.auth.serveLogin lib c.now r).1 with
    | error o =>
      rw [Prod.map_fst, hserve] at hretry
      exact congrArg _ hretry
    | ok f =>
      rw [Prod.map_fst, hserve] at hretry
      cases hretry
  unfold RemoteAuth.serveLogin at hanswer
  split at hanswer
  · cases hanswer
  split at hanswer
  · cases hanswer
  · cases hanswer
  dsimp only at hanswer
  split at hanswer
  · cases hanswer
  rw [hd, Option.map_some, Option.getD_some] at hanswer
  cases hbegin : c.auth.beginLoginLocked c.now d.id with
  | mk wait' a' =>
    rw [hbegin] at hanswer
    cases wait' with
    | none => cases hanswer
    | some wait' =>
      obtain ⟨b, hb, hlocked, _⟩ :=
        RemoteAuth.bucket_of_refused ⟨c.auth, Keeps.refl _, rfl, hbegin⟩
      cases hbucket : c.bucket d.id with
      | none =>
        rw [Config.bucket] at hbucket
        rw [hb, hbucket] at hlocked
        exact absurd hlocked (by simp)
      | some b' =>
        refine ⟨b', rfl, ?_⟩
        rw [Config.bucket] at hbucket
        rw [hb, hbucket] at hlocked
        exact hlocked

/-- An approved device has to wait for attempts with its own cookie only: one that is in flight,
or one that failed within the longest wait. -/
theorem own_of_retry (hrun : Labelled.Run (calls lib) (fun h c x => Fresh lib h x ∧
      KeepsBusy lib c x) {} h c) {r : LoginRequest} {d : DeviceRecord} {wait : Nat}
    (hd : c.auth.deviceByTokenLocked lib r.deviceToken = some d)
    (hretry : ((Action.login r).act lib c).1 = .retry wait) :
    ∃ check, (∃ e ∈ h, Bears lib d.id e ∧ Admits lib e check) ∧ (check ∈ c.checks ∨
      ∃ e ∈ h, e.2.ends = some check ∧ check.right lib = false ∧
        c.now < e.1.now + remoteLoginCap) := by
  have hlength := length_of_device hrun d (RemoteAuth.mem_of_deviceByToken hd)
  have hshared : d.id ≠ "" := by
    intro hid
    rw [hid] at hlength
    exact absurd hlength (by decide)
  have hconsent : d.id ≠ remoteConsentKey := by
    intro hid
    rw [hid] at hlength
    exact absurd hlength (by decide)
  obtain ⟨b, hb, hlocked | hbusy⟩ := refused_of_retry hd hretry
  · obtain ⟨e, he, ⟨⟨check, hends, hkey, hwrong⟩, _⟩, hle⟩ := counted_of_lock hrun hb hlocked
    obtain ⟨newer, older, rfl⟩ := List.append_of_mem he
    obtain ⟨hrun₀, henabled, _⟩ := hrun.before
    obtain ⟨e₀, he₀, hbears, hadmits⟩ := borne_of_run hrun₀ check (henabled.1 check hends)
      (hkey ▸ hshared) (hkey ▸ hconsent)
    refine ⟨check, ⟨e₀, ?_, hkey ▸ hbears, hadmits⟩, .inr ⟨e, he, hends, hwrong, by omega⟩⟩
    exact List.mem_append_right _ (List.mem_cons_of_mem _ he₀)
  · obtain ⟨check, hcheck⟩ := List.exists_mem_of_ne_nil _ (inFlight_of_busy hrun hb hbusy)
    obtain ⟨hcheck, hkey⟩ := List.mem_filter.1 hcheck
    have hkey : check.key = d.id := of_decide_eq_true hkey
    obtain ⟨e₀, he₀, hbears, hadmits⟩ := borne_of_run hrun check hcheck (hkey ▸ hshared)
      (hkey ▸ hconsent)
    exact ⟨check, ⟨e₀, he₀, hkey ▸ hbears, hadmits⟩, .inl hcheck⟩

/-! ## Every run -/

theorem busy_iff (hexclusive : Exclusive k c)
    (hinFlight : ∀ b, c.bucket k = some b → b.busy = true → c.inFlight k ≠ []) :
    c.auth.loginBusyLocked k = true ↔ ∃ check ∈ c.checks, check.key = k := by
  unfold RemoteAuth.loginBusyLocked
  constructor
  · intro hbusy
    cases hbucket : c.auth.buckets.lookup k with
    | none =>
      rw [hbucket] at hbusy
      cases hbusy
    | some b =>
      rw [hbucket] at hbusy
      obtain ⟨check, hcheck⟩ := List.exists_mem_of_ne_nil _ (hinFlight b hbucket hbusy)
      obtain ⟨hcheck, hkey⟩ := List.mem_filter.1 hcheck
      exact ⟨check, hcheck, of_decide_eq_true hkey⟩
  · rintro ⟨check, hcheck, hkey⟩
    have hmem : check ∈ c.inFlight k := List.mem_filter.2 ⟨hcheck, decide_eq_true hkey⟩
    obtain ⟨b, hbucket, hbusy⟩ := hexclusive.busy (List.ne_nil_of_mem hmem)
    rw [Config.bucket] at hbucket
    rw [hbucket]
    exact hbusy

theorem idle_of_ends {x : Action} {check : Check} (hends : x.ends = some check) :
    (x.act lib c).2.auth.loginBusyLocked check.key = false := by
  have hbucket : (x.act lib c).2.bucket check.key = _ := bucket_of_ends hends
  rw [Config.bucket] at hbucket
  rw [RemoteAuth.loginBusyLocked, hbucket]
  cases c.bucket check.key with
  | none => rfl
  | some b =>
    rw [Option.map_some, Option.map_some, Option.getD_some, LoginBucket.ended_busy]

/-- As long as no bucket is dropped while a check of it is in flight: at most one check of a bucket
is in flight; after enough failures the next one begins no earlier than the wait after the last;
an approved device never waits for attempts without its cookie; and a bucket is busy exactly while
a check of it is in flight. -/
theorem signIn_backoff (hrun : Labelled.Run (calls lib) (fun h c x => Fresh lib h x ∧
      KeepsBusy lib c x) {} h c) :
    (∀ k, (c.inFlight k).length ≤ 1) ∧
    (∀ x check n t, Admits lib (c, x) check → Streak lib check.key n t h → remoteLoginFree ≤ n →
      t + min (remoteLoginBase * 2 ^ (n - remoteLoginFree)) remoteLoginCap ≤ c.now) ∧
    (∀ r d wait, c.auth.deviceByTokenLocked lib r.deviceToken = some d →
      ((Action.login r).act lib c).1 = .retry wait →
      ∃ check, (∃ e ∈ h, Bears lib d.id e ∧ Admits lib e check) ∧ (check ∈ c.checks ∨
        ∃ e ∈ h, e.2.ends = some check ∧ check.right lib = false ∧
          c.now < e.1.now + remoteLoginCap)) ∧
    (∀ k, c.auth.loginBusyLocked k = true ↔ ∃ check ∈ c.checks, check.key = k) ∧
    ∀ (x : Action) check, x.ends = some check →
      (x.act lib c).2.auth.loginBusyLocked check.key = false := by
  have hexclusive : ∀ k, Exclusive k c :=
    fun k => exclusive_of_run hrun fun _ _ _ hallowed => hallowed.2
  refine ⟨fun k => (hexclusive k).one, ?_, fun r d wait => own_of_retry hrun, ?_, ?_⟩
  · intro x check n t hadmits hstreak hfree
    obtain ⟨b, hb, hremembers⟩ := remembers_of_run hrun hstreak
    have hunlocked := unlocked_of_admits hadmits
    rw [hb, Option.getD_some] at hunlocked
    rw [← remoteLoginWait_eq]
    exact (hremembers.locked hfree).trans hunlocked
  · exact fun k => busy_iff (hexclusive k) fun b => inFlight_of_busy hrun
  · exact fun x check hends => idle_of_ends hends

section

private def attempt : Action :=
  .login ⟨"application/json", some "wrong", "", "", "phone"⟩

private def wrong : Action :=
  .loginChecked {} none ⟨"", "hash of correct horse battery", "wrong", "", "", "phone"⟩

private def choose : Action :=
  .setPassword (.ok "hash of correct horse battery") none none "correct horse battery"

theorem signIn_backoff_attempt :
    let run := (calls samplePlatform).play {} [attempt, choose]
    (run.2.inFlight "").length = 1 ∧ ∀ k, (run.2.inFlight k).length ≤ 1 := by
  have hplayable : (calls samplePlatform).Playable (fun h c x => Fresh samplePlatform h x ∧
      KeepsBusy samplePlatform c x) {} [attempt, choose] := by decide +kernel
  exact ⟨by decide +kernel, (signIn_backoff hplayable.run).1⟩

/-- The password is set again during a check. When that check ends, the one admitted since is
still in flight, and a third begins. -/
theorem inFlight_two :
    let run := (calls samplePlatform).play {} [attempt, wrong, attempt, choose, attempt, choose]
    Labelled.Run (calls samplePlatform) (fun h _ x => Fresh samplePlatform h x) {} run.1 run.2 ∧
      (run.2.inFlight "").length = 2 := by
  refine ⟨Labelled.System.Playable.run (by decide +kernel), ?_⟩
  decide +kernel

end

end Konnekt.Remote
