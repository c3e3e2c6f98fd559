import Konnekt.Remote.Approvals

/-!
# Approvals are answered truthfully

An entry is in the map until its `Ask` returns or an `Answer` takes it, and it is taken
at most once. What an `Ask` returns nil for was allowed under its own id. The converse
needs that no select gives up on an entry whose yes is on its way, and no yes is for an
entry whose select has given up.
-/

namespace Konnekt.Remote

open Go
open Function (update update_self update_of_ne)

/-! ## Phases -/

/-- The call returns an error. -/
def Asking.fails : Asking → Bool
  | .leaving (some _) | .returned (some _) => true
  | _ => false

/-- The call returns nil. -/
def Asking.allows : Asking → Bool
  | .leaving none | .returned none => true
  | _ => false

/-- The call has returned. -/
def Asking.done : Asking → Bool
  | .returned _ => true
  | _ => false

/-- An `Ask` a step later: what was in its channel is there or is taken, and it returns nil for a
yes that was there. -/
structure AskCall.Moved (c c' : AskCall) : Prop where
  id : c'.id = c.id
  answer : ∀ b, c'.answer = some b → c.answer = some b
  allows : c'.phase.allows = true → c.phase.allows = true ∨ c.answer = some true

theorem moved_wait {now : Nat} {c c' : AskCall} (hc : c.wait now = some c') :
    c.Moved c' ∧ c'.phase.done = false := by
  unfold AskCall.wait at hc
  split at hc <;> cases hc
  exact ⟨⟨rfl, fun _ hb => hb, nofun⟩, rfl⟩

theorem moved_expire {now : Nat} {c c' : AskCall} (hc : c.expire now = some c') :
    c.Moved c' ∧ c'.phase.done = false := by
  unfold AskCall.expire at hc
  split at hc
  · split_ifs at hc
    cases hc
    exact ⟨⟨rfl, fun _ hb => hb, nofun⟩, rfl⟩
  · cases hc

theorem moved_cancel {c c' : AskCall} (hc : c.cancel = some c') :
    c.Moved c' ∧ c'.phase.done = false := by
  unfold AskCall.cancel at hc
  split at hc <;> cases hc
  exact ⟨⟨rfl, fun _ hb => hb, nofun⟩, rfl⟩

theorem moved_hear {c c' : AskCall} (hc : c.hear = some c') :
    c.Moved c' ∧ c'.phase.done = false := by
  unfold AskCall.hear at hc
  split at hc
  · next allowed _ hanswer =>
    cases hc
    refine ⟨⟨rfl, nofun, fun hallows => .inr ?_⟩, rfl⟩
    cases allowed with
    | false => cases hallows
    | true => exact hanswer
  · cases hc

namespace RemoteApprovals

variable {h : Labelled.History RemoteApprovals Action} {s : RemoteApprovals} {x : Action}

/-! ## The invariant -/

/-- An answer takes the entry of an `Ask`. -/
def takes (n : Nat) (e : RemoteApprovals × Action) : Bool :=
  match e.2 with
  | .answer id _ => (e.1.pending.lookup id).any (·.ask = n)
  | _ => false

/-- An answer, a yes or a no, takes the entry of an `Ask` under its id. -/
def Takes (n : Nat) (id : String) (allow : Bool) (e : RemoteApprovals × Action) : Prop :=
  e.2 = .answer id allow ∧ takes n e = true

/-- What holds throughout a run. -/
structure Sound (h : Labelled.History RemoteApprovals Action) (s : RemoteApprovals) : Prop where
  entries : ∀ id e, s.pending.lookup id = some e →
    (∃ c, s.asks e.ask = some c ∧ c.id = id ∧ c.phase.done = false) ∧
      ∀ e' ∈ h, takes e.ask e' = false
  answers : ∀ m a, s.answers m = some a →
    ∃ c, s.asks a.ask = some c ∧ (∃ e ∈ h, Takes a.ask c.id a.allow e) ∧
      (a.sent = false → c.answer = none)
  unique : ∀ m m' a a', s.answers m = some a → s.answers m' = some a' → a.ask = a'.ask → m = m'
  channel : ∀ n c, s.asks n = some c → ∀ b, c.answer = some b →
    ∃ m, s.answers m = some ⟨n, b, true⟩
  heard : ∀ n c, s.asks n = some c → c.phase.allows = true →
    ∃ m, s.answers m = some ⟨n, true, true⟩
  once : ∀ n, (h.filter (takes n)).length ≤ 1
  full : s.pending.values.length ≤ remoteMaxApprovals
  devices : ∀ id id' e e', s.pending.lookup id = some e → s.pending.lookup id' = some e' →
    e.req.device = e'.req.device → id = id'
  asked : ∀ n, s.asked ≤ n → s.asks n = none ∧ ∀ e ∈ h, takes n e = false
  answered : ∀ m, s.answered ≤ m → s.answers m = none

theorem Sound.empty : Sound [] {} where
  entries _ _ he := nomatch he
  answers _ _ ha := nomatch ha
  unique _ _ _ _ ha := nomatch ha
  channel _ _ hc := nomatch hc
  heard _ _ hc := nomatch hc
  once _ := Nat.zero_le 1
  full := Nat.zero_le _
  devices _ _ _ _ he := nomatch he
  asked _ _ := ⟨rfl, fun _ he => nomatch he⟩
  answered _ _ := rfl

/-- An `Ask` in place of the one with its number. -/
theorem asks_update {asks : Nat → Option AskCall} {n k : Nat} {c d : AskCall}
    (hk : update asks n (some c) k = some d) : k = n ∧ d = c ∨ k ≠ n ∧ asks k = some d := by
  by_cases hkn : k = n
  · subst hkn
    rw [update_self] at hk
    exact .inl ⟨rfl, (Option.some.inj hk).symm⟩
  · rw [update_of_ne hkn] at hk
    exact .inr ⟨hkn, hk⟩

/-! ## Each step -/

/-- An `Ask` moves on, and entries may go. -/
theorem Sound.move (hsound : Sound h s) (hx : ∀ k, takes k (s, x) = false) {n : Nat}
    {c c' : AskCall} (hc : s.asks n = some c) (hmoved : c.Moved c')
    {pending : GoMap RemoteApproval}
    (hpending : ∀ id e, pending.lookup id = some e → s.pending.lookup id = some e ∧
      (e.ask = n → c'.phase.done = false))
    (hlength : pending.values.length ≤ s.pending.values.length) :
    Sound ((s, x) :: h) { s.setAsk n c' with pending } where
  entries id e he := by
    obtain ⟨hold, hdone⟩ := hpending id e he
    obtain ⟨⟨d, hd, hid, hnot⟩, huntaken⟩ := hsound.entries id e hold
    refine ⟨?_, List.forall_mem_cons.2 ⟨hx e.ask, huntaken⟩⟩
    by_cases hn : e.ask = n
    · subst hn
      cases hc.symm.trans hd
      exact ⟨c', update_self _ _ _, hmoved.id.trans hid, hdone rfl⟩
    · exact ⟨d, (update_of_ne hn _ _).trans hd, hid, hnot⟩
  answers m a ha := by
    obtain ⟨d, hd, ⟨e, he, htakes⟩, hempty⟩ := hsound.answers m a ha
    by_cases hn : a.ask = n
    · rw [hn] at hd
      cases hc.symm.trans hd
      refine ⟨c', hn ▸ update_self _ _ _, ⟨e, List.mem_cons_of_mem _ he, ?_⟩, fun hsent => ?_⟩
      · rw [hmoved.id]
        exact htakes
      · rw [Option.eq_none_iff_forall_ne_some]
        intro b hb
        cases (hempty hsent).symm.trans (hmoved.answer b hb)
    · exact ⟨d, (update_of_ne hn _ _).trans hd, ⟨e, List.mem_cons_of_mem _ he, htakes⟩, hempty⟩
  unique := hsound.unique
  channel k d hd b hb := by
    obtain ⟨rfl, rfl⟩ | ⟨_, hd⟩ := asks_update hd
    · exact hsound.channel _ c hc b (hmoved.answer b hb)
    · exact hsound.channel k d hd b hb
  heard k d hd hallows := by
    obtain ⟨rfl, rfl⟩ | ⟨_, hd⟩ := asks_update hd
    · obtain hbefore | hyes := hmoved.allows hallows
      · exact hsound.heard _ c hc hbefore
      · exact hsound.channel _ c hc true hyes
    · exact hsound.heard k d hd hallows
  once k := Labelled.once_cons (fun htakes => nomatch (hx k).symm.trans htakes) (hsound.once k)
  full := hlength.trans hsound.full
  devices id id' e e' he he' :=
    hsound.devices id id' e e' (hpending id e he).1 (hpending id' e' he').1
  asked k hk := by
    obtain ⟨hnone, huntaken⟩ := hsound.asked k hk
    refine ⟨(update_of_ne ?_ _ _).trans hnone, ?_⟩
    · rintro rfl
      cases hc.symm.trans hnone
    · exact List.forall_mem_cons.2 ⟨hx k, huntaken⟩
  answered := hsound.answered

/-- A step that does nothing but let time pass. -/
theorem Sound.stay (hsound : Sound h s) (hx : ∀ k, takes k (s, x) = false) (now : Nat) :
    Sound ((s, x) :: h) { s with now } where
  entries id e he := by
    obtain ⟨hask, huntaken⟩ := hsound.entries id e he
    exact ⟨hask, List.forall_mem_cons.2 ⟨hx e.ask, huntaken⟩⟩
  answers m a ha := by
    obtain ⟨c, hc, ⟨e, he, htakes⟩, hempty⟩ := hsound.answers m a ha
    exact ⟨c, hc, ⟨e, List.mem_cons_of_mem _ he, htakes⟩, hempty⟩
  unique := hsound.unique
  channel := hsound.channel
  heard := hsound.heard
  once k := Labelled.once_cons (fun htakes => nomatch (hx k).symm.trans htakes) (hsound.once k)
  full := hsound.full
  devices := hsound.devices
  asked k hk :=
    ⟨(hsound.asked k hk).1, List.forall_mem_cons.2 ⟨hx k, (hsound.asked k hk).2⟩⟩
  answered := hsound.answered

theorem Sound.step (hsound : Sound h s) (hx : ∀ k, takes k (s, x) = false) (n : Nat)
    {next : AskCall → Option AskCall}
    (hnext : ∀ c c', next c = some c' → c.Moved c' ∧ c'.phase.done = false) :
    Sound ((s, x) :: h) (s.step n next) := by
  unfold RemoteApprovals.step
  split
  · exact hsound.stay hx s.now
  · next c' hc' =>
    obtain ⟨c, hc, hc'⟩ := Option.bind_eq_some_iff.1 hc'
    obtain ⟨hmoved, hdone⟩ := hnext c c' hc'
    exact hsound.move hx hc hmoved (fun _ _ he => ⟨he, fun _ => hdone⟩) (Nat.le_refl _)

theorem Sound.leave (hsound : Sound h s) (hx : ∀ k, takes k (s, x) = false) (n : Nat) :
    Sound ((s, x) :: h) (s.leave n).2 := by
  unfold RemoteApprovals.leave
  split
  · next id outcome answer hc =>
    have hmoved : AskCall.Moved ⟨id, .leaving outcome, answer⟩ ⟨id, .returned outcome, answer⟩ := by
      refine ⟨rfl, fun _ hb => hb, fun hallows => .inl ?_⟩
      cases outcome with
      | none => rfl
      | some err => cases hallows
    refine hsound.move hx hc hmoved (fun id' e he => ?_) (GoMap.length_values_erase id _)
    obtain ⟨hne, he⟩ := GoMap.lookup_of_erase he
    refine ⟨he, fun hn => ?_⟩
    -- The entry that is left has another id, and so another `Ask`.
    obtain ⟨⟨c, hc', hid, _⟩, _⟩ := hsound.entries id' e he
    rw [hn, hc] at hc'
    cases hc'
    exact absurd hid.symm hne
  · exact hsound.stay hx s.now

theorem Sound.ask (hsound : Sound h s) (hx : ∀ k, takes k (s, x) = false)
    (id : Except String String) (req : RemoteApprovalRequest) :
    Sound ((s, x) :: h) (s.ask id req).2 := by
  unfold RemoteApprovals.ask
  split
  · exact hsound.stay hx s.now
  next id =>
  split_ifs with hbusy hfull
  · exact hsound.stay hx s.now
  · exact hsound.stay hx s.now
  obtain ⟨hnew, hnone⟩ := hsound.asked s.asked (Nat.le_refl _)
  have hfresh : ∀ n c, s.asks n = some c → n ≠ s.asked := by
    rintro n c hc rfl
    cases hnew.symm.trans hc
  have hdevice : ∀ id' e, s.pending.lookup id' = some e → e.req.device ≠ req.device := by
    intro id' e he hsame
    refine hbusy (List.any_eq_true.2 ⟨e, GoMap.mem_values.2 ⟨id', he⟩, decide_eq_true hsame⟩)
  refine ⟨?_, ?_, hsound.unique, ?_, ?_, ?_, ?_, ?_, ?_, hsound.answered⟩
  · intro id' e he
    obtain ⟨rfl, rfl⟩ | ⟨_, he⟩ := GoMap.lookup_of_insert he
    · exact ⟨⟨_, update_self _ _ _, rfl, rfl⟩, List.forall_mem_cons.2 ⟨hx _, hnone⟩⟩
    · obtain ⟨⟨c, hc, hid, hdone⟩, huntaken⟩ := hsound.entries id' e he
      exact ⟨⟨c, (update_of_ne (hfresh _ c hc) _ _).trans hc, hid, hdone⟩,
        List.forall_mem_cons.2 ⟨hx _, huntaken⟩⟩
  · intro m a ha
    obtain ⟨c, hc, ⟨e, he, htakes⟩, hempty⟩ := hsound.answers m a ha
    exact ⟨c, (update_of_ne (hfresh _ c hc) _ _).trans hc,
      ⟨e, List.mem_cons_of_mem _ he, htakes⟩, hempty⟩
  · intro n c hc b hb
    obtain ⟨_, rfl⟩ | ⟨_, hc⟩ := asks_update hc
    · cases hb
    · exact hsound.channel n c hc b hb
  · intro n c hc hallows
    obtain ⟨_, rfl⟩ | ⟨_, hc⟩ := asks_update hc
    · cases hallows
    · exact hsound.heard n c hc hallows
  · intro k
    exact Labelled.once_cons (fun htakes => nomatch (hx k).symm.trans htakes) (hsound.once k)
  · exact (GoMap.length_values_insert id _ _).trans (Nat.succ_le_of_lt (Nat.not_le.1 hfull))
  · intro i i' e e' he he' hsame
    obtain ⟨rfl, rfl⟩ | ⟨_, hold⟩ := GoMap.lookup_of_insert he
    · obtain ⟨rfl, rfl⟩ | ⟨_, hold'⟩ := GoMap.lookup_of_insert he'
      · rfl
      · exact absurd hsame.symm (hdevice _ e' hold')
    · obtain ⟨rfl, rfl⟩ | ⟨_, hold'⟩ := GoMap.lookup_of_insert he'
      · exact absurd hsame (hdevice _ e hold)
      · exact hsound.devices i i' e e' hold hold' hsame
  · intro n hn
    obtain ⟨hlater, huntaken⟩ := hsound.asked n (Nat.le_of_succ_le hn)
    exact ⟨(update_of_ne (Nat.ne_of_gt hn) _ _).trans hlater,
      List.forall_mem_cons.2 ⟨hx n, huntaken⟩⟩

theorem answers_update {answers : Nat → Option AnswerCall} {m k : Nat} {a b : AnswerCall}
    (hk : update answers m (some a) k = some b) : k = m ∧ b = a ∨ k ≠ m ∧ answers k = some b := by
  by_cases hkm : k = m
  · subst hkm
    rw [update_self] at hk
    exact .inl ⟨rfl, (Option.some.inj hk).symm⟩
  · rw [update_of_ne hkm] at hk
    exact .inr ⟨hkm, hk⟩

/-- The entry of an `Ask` that has an answer was taken. -/
theorem Sound.taken (hsound : Sound h s) {m : Nat} {a : AnswerCall} (ha : s.answers m = some a) :
    ∃ e ∈ h, takes a.ask e = true := by
  obtain ⟨_, _, ⟨e, he, _, htakes⟩, _⟩ := hsound.answers m a ha
  exact ⟨e, he, htakes⟩

theorem Sound.answer (hsound : Sound h s) (id : String) (allow : Bool) :
    Sound ((s, .answer id allow) :: h) (s.answer id allow).2 := by
  unfold RemoteApprovals.answer
  split
  · next hnone =>
    refine hsound.stay (fun k => ?_) s.now
    dsimp only [takes]
    rw [hnone]
    rfl
  next e he =>
  have htakes : ∀ k, takes k (s, .answer id allow) = decide (e.ask = k) := by
    intro k
    dsimp only [takes]
    rw [he]
    rfl
  obtain ⟨⟨c, hc, hid, hdone⟩, huntaken⟩ := hsound.entries id e he
  have hunanswered : ∀ m a, s.answers m = some a → a.ask ≠ e.ask := by
    intro m a ha hsame
    obtain ⟨e', he', htaken⟩ := hsound.taken ha
    rw [hsame] at htaken
    cases htaken.symm.trans (huntaken e' he')
  have hnew : ∀ m a, s.answers m = some a → m ≠ s.answered := by
    rintro m a ha rfl
    cases ha.symm.trans (hsound.answered _ (Nat.le_refl _))
  refine ⟨?_, ?_, ?_, ?_, ?_, ?_, ?_, ?_, ?_, ?_⟩
  · intro id' e' he'
    obtain ⟨hne, hold⟩ := GoMap.lookup_of_erase he'
    obtain ⟨⟨c', hc', hid', hdone'⟩, huntaken'⟩ := hsound.entries id' e' hold
    refine ⟨⟨c', hc', hid', hdone'⟩, List.forall_mem_cons.2 ⟨?_, huntaken'⟩⟩
    rw [htakes, decide_eq_false_iff_not]
    intro hsame
    rw [hsame, hc'] at hc
    cases hc
    exact hne (hid'.symm.trans hid)
  · intro m a ha
    obtain ⟨_, rfl⟩ | ⟨_, hold⟩ := answers_update ha
    · refine ⟨c, hc, ⟨_, List.mem_cons_self, ?_, ?_⟩, fun _ => ?_⟩
      · rw [hid]
      · rw [htakes]
        exact decide_eq_true rfl
      · rw [Option.eq_none_iff_forall_ne_some]
        intro b hb
        obtain ⟨m', hm'⟩ := hsound.channel e.ask c hc b hb
        exact hunanswered m' _ hm' rfl
    · obtain ⟨c', hc', ⟨e', he', htaken⟩, hempty⟩ := hsound.answers m a hold
      exact ⟨c', hc', ⟨e', List.mem_cons_of_mem _ he', htaken⟩, hempty⟩
  · intro m m' a a' ha ha' hsame
    obtain ⟨rfl, rfl⟩ | ⟨_, hold⟩ := answers_update ha
    · obtain ⟨rfl, rfl⟩ | ⟨_, hold'⟩ := answers_update ha'
      · rfl
      · exact absurd hsame.symm (hunanswered m' a' hold')
    · obtain ⟨rfl, rfl⟩ | ⟨_, hold'⟩ := answers_update ha'
      · exact absurd hsame (hunanswered m a hold)
      · exact hsound.unique m m' a a' hold hold' hsame
  · intro n d hd b hb
    obtain ⟨m, hm⟩ := hsound.channel n d hd b hb
    exact ⟨m, (update_of_ne (hnew m _ hm) _ _).trans hm⟩
  · intro n d hd hallows
    obtain ⟨m, hm⟩ := hsound.heard n d hd hallows
    exact ⟨m, (update_of_ne (hnew m _ hm) _ _).trans hm⟩
  · intro k
    refine Labelled.once_cons (fun htaken e' he' => ?_) (hsound.once k)
    rw [htakes, decide_eq_true_eq] at htaken
    rw [← htaken, huntaken e' he']
    exact Bool.false_ne_true
  · exact (GoMap.length_values_erase id _).trans hsound.full
  · intro i i' d d' hd hd'
    exact hsound.devices i i' d d' (GoMap.lookup_of_erase hd).2 (GoMap.lookup_of_erase hd').2
  · intro n hn
    obtain ⟨hnone, hnot⟩ := hsound.asked n hn
    refine ⟨hnone, List.forall_mem_cons.2 ⟨?_, hnot⟩⟩
    rw [htakes, decide_eq_false_iff_not]
    rintro rfl
    cases hc.symm.trans hnone
  · intro m hm
    exact (update_of_ne (Nat.ne_of_gt hm) _ _).trans (hsound.answered m (Nat.le_of_succ_le hm))

theorem Sound.send (hsound : Sound h s) (hx : ∀ k, takes k (s, x) = false) (m : Nat) :
    Sound ((s, x) :: h) (s.send m).2 := by
  unfold RemoteApprovals.send
  split
  · next n allow ha =>
    split
    · next id phase hc =>
      have hsent : ∀ m' k b, s.answers m' = some ⟨k, b, true⟩ → m' ≠ m := by
        rintro m' k b hm' rfl
        cases ha.symm.trans hm'
      have hold : ∀ m' a', update s.answers m (some ⟨n, allow, true⟩) m' = some a' →
          ∃ b, s.answers m' = some b ∧ b.ask = a'.ask := by
        intro m' a' ha'
        obtain ⟨rfl, rfl⟩ | ⟨_, ha'⟩ := answers_update ha'
        · exact ⟨_, ha, rfl⟩
        · exact ⟨a', ha', rfl⟩
      refine ⟨?_, ?_, ?_, ?_, ?_, ?_, hsound.full, hsound.devices, ?_, ?_⟩
      · intro id' e he
        obtain ⟨⟨c, hc', hid, hdone⟩, huntaken⟩ := hsound.entries id' e he
        refine ⟨?_, List.forall_mem_cons.2 ⟨hx e.ask, huntaken⟩⟩
        by_cases hn : e.ask = n
        · subst hn
          cases hc.symm.trans hc'
          exact ⟨_, update_self _ _ _, hid, hdone⟩
        · exact ⟨c, (update_of_ne hn _ _).trans hc', hid, hdone⟩
      · intro m' a' ha'
        obtain ⟨rfl, rfl⟩ | ⟨hne, ha'⟩ := answers_update ha'
        · obtain ⟨c, hc', ⟨e, he, htaken⟩, _⟩ := hsound.answers _ _ ha
          cases hc.symm.trans hc'
          exact ⟨_, update_self _ _ _, ⟨e, List.mem_cons_of_mem _ he, htaken⟩, nofun⟩
        · obtain ⟨c, hc', ⟨e, he, htaken⟩, hempty⟩ := hsound.answers m' a' ha'
          have hother : a'.ask ≠ n :=
            fun hsame => hne (hsound.unique m' m a' _ ha' ha hsame)
          exact ⟨c, (update_of_ne hother _ _).trans hc',
            ⟨e, List.mem_cons_of_mem _ he, htaken⟩, hempty⟩
      · intro m₁ m₂ a₁ a₂ h₁ h₂ hsame
        obtain ⟨b₁, hb₁, hask₁⟩ := hold m₁ a₁ h₁
        obtain ⟨b₂, hb₂, hask₂⟩ := hold m₂ a₂ h₂
        exact hsound.unique m₁ m₂ b₁ b₂ hb₁ hb₂ (by rw [hask₁, hask₂, hsame])
      · intro k d hd b hb
        obtain ⟨rfl, rfl⟩ | ⟨_, hd⟩ := asks_update hd
        · cases hb
          exact ⟨m, update_self _ _ _⟩
        · obtain ⟨m', hm'⟩ := hsound.channel k d hd b hb
          exact ⟨m', (update_of_ne (hsent m' _ _ hm') _ _).trans hm'⟩
      · intro k d hd hallows
        have hbefore : ∃ m', s.answers m' = some ⟨k, true, true⟩ := by
          obtain ⟨rfl, rfl⟩ | ⟨_, hd⟩ := asks_update hd
          · exact hsound.heard _ _ hc hallows
          · exact hsound.heard k d hd hallows
        obtain ⟨m', hm'⟩ := hbefore
        exact ⟨m', (update_of_ne (hsent m' _ _ hm') _ _).trans hm'⟩
      · intro k
        exact Labelled.once_cons (fun htakes => nomatch (hx k).symm.trans htakes) (hsound.once k)
      · intro k hk
        obtain ⟨hnone, huntaken⟩ := hsound.asked k hk
        refine ⟨(update_of_ne ?_ _ _).trans hnone, List.forall_mem_cons.2 ⟨hx k, huntaken⟩⟩
        rintro rfl
        cases hc.symm.trans hnone
      · intro k hk
        refine (update_of_ne ?_ _ _).trans (hsound.answered k hk)
        rintro rfl
        cases ha.symm.trans (hsound.answered _ hk)
    · exact hsound.stay hx s.now
  · exact hsound.stay hx s.now

theorem Sound.act (hsound : Sound h s) (x : Action) : Sound ((s, x) :: h) (x.act s).2 := by
  cases x with
  | tick elapsed => exact hsound.stay (fun _ => rfl) _
  | ask id req => exact hsound.ask (fun _ => rfl) id req
  | wait n => exact hsound.step (fun _ => rfl) n fun _ _ => moved_wait
  | hear n => exact hsound.step (fun _ => rfl) n fun _ _ => moved_hear
  | expire n => exact hsound.step (fun _ => rfl) n fun _ _ => moved_expire
  | cancel n => exact hsound.step (fun _ => rfl) n fun _ _ => moved_cancel
  | leave n => exact hsound.leave (fun _ => rfl) n
  | answer id allow => exact hsound.answer id allow
  | send m => exact hsound.send (fun _ => rfl) m

theorem sound_of_run {allowed : Labelled.History RemoteApprovals Action → RemoteApprovals → Action →
      Prop} (hrun : Labelled.Run system allowed {} h s) : Sound h s := by
  refine hrun.invariant (P := Sound) Sound.empty ?_
  intro h s x _ hsound _ _
  exact hsound.act x

/-! ## A yes that is heard -/

/-- No select gives up on an entry a yes has taken, and no yes takes an entry whose select has
taken the timer or the context. -/
def Heard (s : RemoteApprovals) : Action → Prop
  | .expire n | .cancel n => ∀ m < s.answered, ∀ a ∈ s.answers m, a.ask = n → a.allow = false
  | .answer id true => ∀ e ∈ s.pending.lookup id, ∀ c ∈ s.asks e.ask, c.phase.fails = false
  | _ => True

instance (s : RemoteApprovals) (x : Action) : Decidable (Heard s x) := by
  unfold Heard
  split <;> infer_instance

/-- An `Ask` whose entry a yes has taken does not fail. -/
def Kept (s : RemoteApprovals) : Prop :=
  ∀ m n sent, s.answers m = some ⟨n, true, sent⟩ → ∀ c, s.asks n = some c → c.phase.fails = false

/-- An `Ask` moves on that has no yes, or does not fail. -/
theorem Kept.move (hkept : Kept s) {n : Nat} {c : AskCall}
    (hc : (∃ m sent, s.answers m = some ⟨n, true, sent⟩) → c.phase.fails = false)
    (pending : GoMap RemoteApproval) : Kept { s.setAsk n c with pending } := by
  intro m k sent hm d hd
  obtain ⟨rfl, rfl⟩ | ⟨_, hd⟩ := asks_update hd
  · exact hc ⟨m, sent, hm⟩
  · exact hkept m k sent hm d hd

theorem Kept.step (hkept : Kept s) (n : Nat) {next : AskCall → Option AskCall}
    (hnext : ∀ c c', s.asks n = some c → next c = some c' →
      (∃ m sent, s.answers m = some ⟨n, true, sent⟩) → c'.phase.fails = false) :
    Kept (s.step n next) := by
  unfold RemoteApprovals.step
  split
  · exact hkept
  · next c' hc' =>
    obtain ⟨c, hc, hc'⟩ := Option.bind_eq_some_iff.1 hc'
    exact hkept.move (hnext c c' hc hc') s.pending

theorem Kept.answer (hkept : Kept s) (id : String) (allow : Bool)
    (hheard : Heard s (.answer id allow)) : Kept (s.answer id allow).2 := by
  unfold RemoteApprovals.answer
  split
  · exact hkept
  next e he =>
  intro m n sent hm c hc
  obtain ⟨_, hnew⟩ | ⟨_, hold⟩ := answers_update hm
  · cases hnew
    exact hheard e he c hc
  · exact hkept m n sent hold c hc

theorem Kept.send (hkept : Kept s) (m : Nat) : Kept (s.send m).2 := by
  unfold RemoteApprovals.send
  split
  · next n allow ha =>
    split
    · next id phase hc =>
      intro m' k sent hm' d hd
      have hold : ∃ sent, s.answers m' = some ⟨k, true, sent⟩ := by
        obtain ⟨rfl, hnew⟩ | ⟨_, hold⟩ := answers_update hm'
        · cases hnew
          exact ⟨_, ha⟩
        · exact ⟨_, hold⟩
      obtain ⟨_, hold⟩ := hold
      obtain ⟨rfl, rfl⟩ | ⟨_, hd⟩ := asks_update hd
      · have hbefore := hkept m' k _ hold _ hc
        exact hbefore
      · exact hkept m' k _ hold d hd
    · exact hkept
  · exact hkept

theorem Kept.act (hkept : Kept s) (hsound : Sound h s) {x : Action} (hheard : Heard s x) :
    Kept (x.act s).2 := by
  have hnoyes : ∀ n, (∀ m < s.answered, ∀ a ∈ s.answers m, a.ask = n → a.allow = false) →
      ¬ ∃ m sent, s.answers m = some ⟨n, true, sent⟩ := by
    rintro n hno ⟨m, sent, hm⟩
    have hlt : m < s.answered := by
      by_contra hle
      cases (hsound.answered m (Nat.not_lt.1 hle)).symm.trans hm
    cases hno m hlt _ hm rfl
  cases x with
  | tick elapsed => exact hkept
  | ask id req =>
    dsimp only [Action.act]
    unfold RemoteApprovals.ask
    split
    · exact hkept
    split_ifs
    · exact hkept
    · exact hkept
    · exact hkept.move (fun _ => rfl) ∅
  | wait n =>
    refine hkept.step n fun c c' _ hc' _ => ?_
    unfold AskCall.wait at hc'
    split at hc' <;> cases hc'
    rfl
  | hear n =>
    refine hkept.step n fun c c' hc hc' hyes => ?_
    obtain ⟨m, sent, hm⟩ := hyes
    unfold AskCall.hear at hc'
    split at hc'
    · next allowed _ hanswer =>
      cases hc'
      -- What is in the channel is what the one answer said.
      obtain ⟨m', hm'⟩ := hsound.channel n c hc allowed hanswer
      obtain rfl := hsound.unique m m' _ _ hm hm' rfl
      cases hm.symm.trans hm'
      rfl
    · cases hc'
  | expire n => exact hkept.step n fun _ _ _ _ hyes => absurd hyes (hnoyes n hheard)
  | cancel n => exact hkept.step n fun _ _ _ _ hyes => absurd hyes (hnoyes n hheard)
  | leave n =>
    dsimp only [Action.act]
    unfold RemoteApprovals.leave
    split
    · next id outcome answer hc =>
      refine hkept.move (fun hyes => ?_) _
      obtain ⟨m, sent, hm⟩ := hyes
      have hbefore := hkept m n sent hm _ hc
      cases outcome with
      | none => rfl
      | some err => cases hbefore
    · exact hkept
  | answer id allow => exact hkept.answer id allow hheard
  | send m => exact hkept.send m

/-- In every run an `Ask` that returns nil was allowed under its own id, an entry is taken at most
once, the limits hold, and an `Ask` that has returned has no entry. As long as no select gives up on
an entry a yes has taken, and no yes takes an entry whose select has given up, an `Ask` whose
`Answer(id, true)` returned nil returns nil. -/
theorem desktop_approvals (hrun : Labelled.Run system (fun _ s x => Heard s x) {} h s) :
    (∀ n c, s.asks n = some c → c.phase.allows = true → ∃ e ∈ h, Takes n c.id true e) ∧
    (∀ m n, s.answers m = some ⟨n, true, true⟩ → ∃ c, s.asks n = some c ∧
      (∃ e ∈ h, Takes n c.id true e) ∧ c.phase.fails = false) ∧
    (∀ n, (h.filter (takes n)).length ≤ 1) ∧
    (s.pending.values.length ≤ remoteMaxApprovals ∧
      ∀ id id' e e', s.pending.lookup id = some e → s.pending.lookup id' = some e' →
        e.req.device = e'.req.device → id = id') ∧
    ∀ n c, s.asks n = some c → c.phase.done = true → ∀ e ∈ s.pending.values, e.ask ≠ n := by
  have hsound := sound_of_run hrun
  have hkept : Kept s := by
    refine hrun.invariant (P := fun _ s => Kept s) (fun _ _ _ hm => nomatch hm) ?_
    intro h s x hrun hkept _ hheard
    exact hkept.act (sound_of_run hrun) hheard
  refine ⟨?_, ?_, hsound.once, ⟨hsound.full, hsound.devices⟩, ?_⟩
  · intro n c hc hallows
    obtain ⟨m, hm⟩ := hsound.heard n c hc hallows
    obtain ⟨c', hc', htaken, _⟩ := hsound.answers m _ hm
    cases hc.symm.trans hc'
    exact htaken
  · intro m n hm
    obtain ⟨c, hc, htaken, _⟩ := hsound.answers m _ hm
    exact ⟨c, hc, htaken, hkept m n true hm c hc⟩
  · rintro n c hc hdone e he rfl
    obtain ⟨id, hid⟩ := GoMap.mem_values.1 he
    obtain ⟨⟨c', hc', _, hnot⟩, _⟩ := hsound.entries id e hid
    cases hc.symm.trans hc'
    cases hdone.symm.trans hnot

section

/-- A phone asks, is allowed, and is let in. -/
private def allowed : List Action :=
  [.leave 0, .hear 0, .send 0, .answer "request000000001" true, .wait 0,
    .ask (.ok "request000000001") ⟨"phone", "SaveServerConfig", "JVM arguments", []⟩]

theorem desktop_approvals_phone :
    ∃ c, (system.play {} allowed).2.asks 0 = some c ∧ c.phase.fails = false := by
  have hplayable : system.Playable (fun _ s x => Heard s x) {} allowed := by decide +kernel
  obtain ⟨c, hc, _, hfails⟩ := (desktop_approvals hplayable.run).2.1 0 0 (by decide +kernel)
  exact ⟨c, hc, hfails⟩

/-- The timer fires, and the desktop allows the call before its entry is deleted. -/
private def tooLate : List Action :=
  [.leave 0, .send 0, .answer "request000000001" true, .expire 0, .tick remoteApprovalTimeout,
    .wait 0, .ask (.ok "request000000001") ⟨"phone", "SaveServerConfig", "JVM arguments", []⟩]

/-- `Answer(id, true)` has returned nil, and the `Ask` it is for has timed out. -/
theorem approval_timedOut :
    Labelled.Run system (fun _ _ _ => True) {} (system.play {} tooLate).1
        (system.play {} tooLate).2 ∧
      (∃ e ∈ (system.play {} tooLate).1, e.2 = .send 0 ∧ system.answer e = .returned none) ∧
      (system.play {} tooLate).2.answers 0 = some ⟨0, true, true⟩ ∧
      (system.play {} tooLate).2.asks 0 =
        some ⟨"request000000001", .returned (some errRemoteApprovalTimeout), some true⟩ := by
  refine ⟨Labelled.System.Playable.run (by decide +kernel), ?_, by decide +kernel,
    by decide +kernel⟩
  exact ⟨_, List.mem_of_getElem? (i := 1) rfl, rfl, by decide +kernel⟩

end

end RemoteApprovals

end Konnekt.Remote
