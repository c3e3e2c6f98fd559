import Mathlib
import Konnekt.Remote.Mirror

/-!
# The event mirror

A page applies every event after the position it starts from once and in order, or is
told to start anew, as long as nothing is published between the replay of its socket
and the socket's membership, and it does not come back with no position to a hub that
has numbered events since.
-/

namespace Konnekt.Remote.Mirror

open Function

variable {h : Labelled.History Mirror Action} {s : Mirror} {t : Tab} {hub : RemoteHub}

/-! ## The replay -/

theorem log_ne_nil {log : List Effect} {n : Nat} (h : Followed log n) (hn : 0 < n) : log ≠ [] := by
  rintro rfl
  cases h
  exact absurd hn (Nat.lt_irrefl 0)

theorem Tab.asks_fst (t : Tab) : t.asks.1 = t.lastSeq := by
  unfold Tab.asks
  split_ifs with hpos
  · rfl
  · exact (Nat.eq_zero_of_not_pos hpos).symm

/-- A replay without a gap has every frame after the number, in order. -/
theorem seqs_of_replay (hring : Latest hub.seq hub.ring) {since : Nat} {run : String}
    {frames : List Frame} (hreplay : hub.replay since run = (frames, false)) (hpos : 0 < since)
    (hle : since ≤ hub.seq) :
    frames.map Frame.seq = List.range' (since + 1) (hub.seq - since) := by
  unfold RemoteHub.replay at hreplay
  rw [if_neg (Nat.pos_iff_ne_zero.1 hpos)] at hreplay
  split_ifs at hreplay with hnone hsame
  · cases hreplay
  · cases hreplay
    rw [hsame, Nat.sub_self]
    rfl
  · obtain ⟨rfl, hfirst⟩ := Prod.mk.inj hreplay
    rw [not_or, not_or, not_or, not_and] at hnone
    refine hring.filter hle (fun hlt => hnone.2.2.2 hlt) fun f hf => ?_
    rw [hf, Option.any_some, decide_eq_false_iff_not] at hfirst
    exact Nat.not_lt.1 hfirst

theorem mem_of_replay {since : Nat} {run : String} {f : Frame}
    (hf : f ∈ (hub.replay since run).1) : f ∈ hub.ring := by
  unfold RemoteHub.replay at hf
  split_ifs at hf
  · cases hf
  · cases hf
  · cases hf
  · exact (List.mem_filter.1 hf).1

theorem offer_cases (since : Nat) (run : String) (hub : RemoteHub) :
    hub.offer since run = ([], true) ∨ hub.offer since run = hub.replay since run := by
  unfold RemoteHub.offer
  split_ifs
  · exact .inl rfl
  · exact .inr rfl

theorem mem_of_offer {since : Nat} {run : String} {f : Frame}
    (hf : f ∈ (hub.offer since run).1) : f ∈ hub.ring := by
  obtain hoffer | hoffer := offer_cases since run hub
  · rw [hoffer] at hf
    cases hf
  · rw [hoffer] at hf
    exact mem_of_replay hf

theorem le_of_mem_ring (hring : Latest hub.seq hub.ring) {f : Frame} (hf : f ∈ hub.ring) :
    f.seq ≤ hub.seq := by
  have hmem := List.mem_map_of_mem (f := Frame.seq) hf
  have hlength := hring.length
  rw [hring.seqs, List.mem_range'_1] at hmem
  omega

/-- What a socket is welcomed with brings the page up to the hub. -/
theorem brings_of_offer (hring : Latest hub.seq hub.ring) (hfollowed : Followed t.log t.lastSeq)
    (hbehind : t.lastSeq ≤ hub.seq) (run : String)
    (hnew : t.lastSeq = 0 → t.log ≠ [] → hub.seq = 0) :
    Brings t (.hello hub.seq (hub.offer t.lastSeq run).1.length (hub.offer t.lastSeq run).2 hub.run
      :: (hub.offer t.lastSeq run).1.map .event) hub.seq := by
  have hold : ∀ f ∈ (hub.offer t.lastSeq run).1, f.seq ≤ hub.seq :=
    fun f hf => le_of_mem_ring hring (mem_of_offer hf)
  have hoffer := offer_cases t.lastSeq run hub
  generalize hub.offer t.lastSeq run = offer at hold hoffer ⊢
  obtain ⟨frames, gap⟩ := offer
  dsimp only at hold ⊢
  cases gap with
  | true =>
    have hafter := Tab.onMessage_gap hub.seq frames.length hub.run t
    refine .next ⟨?_, ?_⟩ ?_
    · rw [hafter]
      exact hfollowed.resync _
    · rw [hafter]
      exact hbehind
    · rw [hafter]
      exact @Brings.old { t with run := hub.run, lastSeq := hub.seq, log := _ } _
        (hfollowed.resync _) (List.cons_ne_nil _ _) hold
  | false =>
    have hreplay : hub.replay t.lastSeq run = (frames, false) := by
      obtain hoffer | hoffer := hoffer
      · cases hoffer
      · exact hoffer.symm
    by_cases hempty : frames = []
    · -- Nothing is replayed: the hub's number is the page's, or the page had none.
      subst hempty
      have hafter := Tab.onMessage_position hbehind hub.run
      have hsound : Followed (.position hub.seq :: t.log) hub.seq := by
        by_cases hlog : t.log = []
        · rw [hlog]
          exact .first _
        · refine .position ?_ hlog
          have hsame : t.lastSeq = hub.seq := by
            obtain hzero | hpos := Nat.eq_zero_or_pos t.lastSeq
            · rw [hzero, hnew hzero hlog]
            · have hseqs := congrArg List.length (seqs_of_replay hring hreplay hpos hbehind)
              rw [List.length_range'] at hseqs
              have hzero : hub.seq - t.lastSeq = 0 := hseqs.symm
              omega
          rw [← hsame]
          exact hfollowed
      refine .next ⟨?_, ?_⟩ ?_
      · rw [List.length_nil, hafter]
        exact hsound
      · rw [List.length_nil, hafter]
        exact hbehind
      · rw [List.length_nil, hafter]
        exact @Brings.done { t with run := hub.run, lastSeq := hub.seq, log := _ }
          (List.cons_ne_nil _ _)
    · -- The replay goes on from the page's position.
      have hpos : 0 < t.lastSeq := by
        rw [Nat.pos_iff_ne_zero]
        intro hzero
        rw [hzero] at hreplay
        exact hempty (Prod.mk.inj hreplay).1.symm
      have hafter := Tab.onMessage_replay hbehind
        (fun hnone => hempty (List.length_eq_zero_iff.1 hnone)) hub.run
      refine .next ⟨?_, ?_⟩ ?_
      · rw [hafter]
        exact hfollowed
      · rw [hafter]
      · rw [hafter]
        exact @Brings.events { t with run := hub.run } _ _ hfollowed (log_ne_nil hfollowed hpos)
          hbehind (seqs_of_replay hring hreplay hpos hbehind)

/-! ## One step -/

/-- Nothing is published between the replay of the page's socket and its membership, and a page
that had a hello before does not come back with no position to a hub that has numbered events. -/
def Unbroken (s : Mirror) : Action → Prop
  | .publish _ data => data ≠ none → ∀ id ∈ s.tab.socket, ∀ u ∈ s.upgrades id, u.welcomed = false
  | .replay id => s.tab.socket = some id → ∀ u ∈ s.upgrades id, u.welcomed = false →
      u.since = 0 → s.tab.log ≠ [] → s.hub.seq = 0
  | _ => True

instance (x : Action) : Decidable (Unbroken s x) :=
  match x with
  | .publish _ data => inferInstanceAs (Decidable
      (data ≠ none → ∀ id ∈ s.tab.socket, ∀ u ∈ s.upgrades id, u.welcomed = false))
  | .replay id => inferInstanceAs (Decidable (s.tab.socket = some id → ∀ u ∈ s.upgrades id,
      u.welcomed = false → u.since = 0 → s.tab.log ≠ [] → s.hub.seq = 0))
  | .newRun _ | .closeAll | .closeSessions _ | .connect .. | .open _ | .add _ | .write _
  | .remove _ | .receive | .close | .reload => inferInstanceAs (Decidable True)

/-- What the page's socket is about to bring. -/
inductive Coming (s : Mirror) (id : Nat) : Prop
  | asked {u : Upgrade} (hu : s.upgrades id = some u) (hopen : u.welcomed = false)
      (hasks : u.since = s.tab.lastSeq)
  | welcomed {u : Upgrade} (hu : s.upgrades id = some u) (hwelcomed : u.welcomed = true)
      (hbrings : Brings s.tab u.client.send s.hub.seq)
  | member {c : RemoteClient} (hu : s.upgrades id = none) (hc : s.hub.clients id = some c)
      (hbrings : Brings s.tab (s.wire id ++ c.send) s.hub.seq)
  | gone (hu : s.upgrades id = none) (hc : s.hub.clients id = none)
      (hrest : s.wire id = [] ∨ ∃ rest n, n ≤ s.hub.seq ∧ Brings s.tab (s.wire id ++ rest) n)

/-- What is kept. -/
structure Linked (s : Mirror) : Prop where
  ring : Latest s.hub.seq s.hub.ring
  fresh : ∀ id, s.next ≤ id → s.upgrades id = none ∧ s.hub.clients id = none ∧ s.wire id = []
  apart : ∀ id u, s.upgrades id = some u → s.hub.clients id = none ∧ s.wire id = []
  new : ∀ id u, s.upgrades id = some u → u.welcomed = false → u.client.send = []
  socket : ∀ id, s.tab.socket = some id → id < s.next
  followed : Followed s.tab.log s.tab.lastSeq
  behind : s.tab.lastSeq ≤ s.hub.seq
  coming : ∀ id, s.tab.socket = some id → Coming s id

theorem Linked.empty : Linked {} where
  ring := Latest.nil
  fresh _ _ := ⟨rfl, rfl, rfl⟩
  apart _ _ hu := by cases hu
  new _ _ hu := by cases hu
  socket _ hid := by cases hid
  followed := .nil
  behind := Nat.le_refl 0
  coming _ hid := by cases hid

/-- A member that is dropped leaves a beginning of what it would have brought. -/
theorem Coming.drop {id : Nat} (hcoming : Coming s id) {s' : Mirror}
    (hupgrades : s'.upgrades id = s.upgrades id) (htab : s'.tab = s.tab)
    (hwire : s'.wire id = s.wire id) (hseq : s'.hub.seq = s.hub.seq)
    (hclients : s'.hub.clients id = s.hub.clients id ∨ s'.hub.clients id = none) :
    Coming s' id := by
  cases hcoming with
  | asked hu hopen hasks => exact .asked (hupgrades.trans hu) hopen (htab ▸ hasks)
  | welcomed hu hwelcomed hbrings =>
    refine .welcomed (hupgrades.trans hu) hwelcomed ?_
    rw [htab, hseq]
    exact hbrings
  | @member c hu hc hbrings =>
    obtain hsame | hnone := hclients
    · refine .member (hupgrades.trans hu) (hsame.trans hc) ?_
      rw [htab, hwire, hseq]
      exact hbrings
    · refine .gone (hupgrades.trans hu) hnone (.inr ⟨c.send, s.hub.seq, ?_, ?_⟩)
      · rw [hseq]
      · rw [htab, hwire]
        exact hbrings
  | gone hu hc hrest =>
    refine .gone (hupgrades.trans hu) ?_ ?_
    · obtain hsame | hnone := hclients
      · exact hsame.trans hc
      · exact hnone
    · rw [htab, hwire, hseq]
      exact hrest

/-- Members dropped, and the ring forgotten or kept. -/
theorem Linked.drop (hlinked : Linked s) {hub : RemoteHub} (hseq : hub.seq = s.hub.seq)
    (hring : Latest hub.seq hub.ring)
    (hclients : ∀ id, hub.clients id = s.hub.clients id ∨ hub.clients id = none) :
    Linked { s with hub } where
  ring := hring
  fresh id hid := by
    obtain ⟨hu, hc, hw⟩ := hlinked.fresh id hid
    refine ⟨hu, ?_, hw⟩
    obtain hsame | hnone := hclients id
    · exact hsame.trans hc
    · exact hnone
  apart id u hu := by
    obtain ⟨hc, hw⟩ := hlinked.apart id u hu
    refine ⟨?_, hw⟩
    obtain hsame | hnone := hclients id
    · exact hsame.trans hc
    · exact hnone
  new := hlinked.new
  socket := hlinked.socket
  followed := hlinked.followed
  behind := hlinked.behind.trans hseq.ge
  coming id hid := (hlinked.coming id hid).drop rfl rfl rfl hseq (hclients id)

theorem Linked.publish (hlinked : Linked s) {event : String} {data : Option String}
    (hunbroken : Unbroken s (.publish event data)) :
    Linked { s with hub := s.hub.publish event data } := by
  cases data with
  | none => exact hlinked
  | some data =>
    have hnone : ∀ id, s.hub.clients id = none →
        (s.hub.publish event (some data)).clients id = none := by
      intro id hid
      rw [RemoteHub.clients_publish, hid]
      rfl
    have hclients : ∀ id c, s.hub.clients id = some c →
        (s.hub.publish event (some data)).clients id =
          c.queue (.event ⟨s.hub.seq + 1, event, data⟩) := by
      intro id c hid
      rw [RemoteHub.clients_publish, hid]
      rfl
    have hmore : s.hub.seq ≤ (s.hub.publish event (some data)).seq := Nat.le_succ _
    refine ⟨RemoteHub.latest_publish hlinked.ring event (some data), ?_, ?_, hlinked.new,
      hlinked.socket, hlinked.followed, hlinked.behind.trans hmore, ?_⟩
    · intro id hid
      obtain ⟨hu, hc, hw⟩ := hlinked.fresh id hid
      exact ⟨hu, hnone id hc, hw⟩
    · intro id u hu
      obtain ⟨hc, hw⟩ := hlinked.apart id u hu
      exact ⟨hnone id hc, hw⟩
    · intro id hid
      cases hlinked.coming id hid with
      | asked hu hopen hasks => exact .asked hu hopen hasks
      | welcomed hu hwelcomed =>
        have hopen := hunbroken (Option.some_ne_none _) id hid _ hu
        rw [hwelcomed] at hopen
        cases hopen
      | @member c hu hc hbrings =>
        have hafter := hclients id c hc
        unfold RemoteClient.queue at hafter
        split_ifs at hafter
        · refine .member hu hafter ?_
          have happend := hbrings.append hlinked.followed (f := ⟨s.hub.seq + 1, event, data⟩) rfl
          rw [List.append_assoc] at happend
          exact happend
        · exact .gone hu hafter (.inr ⟨c.send, s.hub.seq, hmore, hbrings⟩)
      | gone hu hc hrest =>
        refine .gone hu (hnone id hc) (hrest.imp_right ?_)
        rintro ⟨rest, n, hn, hbrings⟩
        exact ⟨rest, n, hn.trans hmore, hbrings⟩

/-- What happens to one socket leaves the others alone. -/
theorem Coming.congr {id : Nat} (hcoming : Coming s id) {s' : Mirror}
    (hupgrades : s'.upgrades id = s.upgrades id) (htab : s'.tab = s.tab)
    (hwire : s'.wire id = s.wire id) (hseq : s'.hub.seq = s.hub.seq)
    (hclients : s'.hub.clients id = s.hub.clients id) : Coming s' id :=
  hcoming.drop hupgrades htab hwire hseq (.inl hclients)

theorem Linked.upgrade (hlinked : Linked s) (session : String) (since : Nat) (run : String) :
    Linked (s.upgrade session since run) := by
  have hother : ∀ id, id ≠ s.next → (s.upgrade session since run).upgrades id = s.upgrades id :=
    fun id hid => update_of_ne hid _ _
  obtain ⟨hnone, hclient, hwire⟩ := hlinked.fresh s.next (Nat.le_refl _)
  refine ⟨hlinked.ring, ?_, ?_, ?_, ?_, hlinked.followed, hlinked.behind, ?_⟩
  · intro id hid
    have hid : s.next + 1 ≤ id := hid
    obtain ⟨hu, hrest⟩ := hlinked.fresh id (by omega)
    exact ⟨(hother id (by omega)).trans hu, hrest⟩
  · intro id u hu
    by_cases hid : id = s.next
    · subst hid
      exact ⟨hclient, hwire⟩
    · exact hlinked.apart id u ((hother id hid).symm.trans hu)
  · intro id u hu hopen
    by_cases hid : id = s.next
    · subst hid
      have hu : some _ = some u := (update_self s.next _ s.upgrades).symm.trans hu
      cases hu
      rfl
    · exact hlinked.new id u ((hother id hid).symm.trans hu) hopen
  · exact fun id hid => (hlinked.socket id hid).trans (Nat.lt_succ_self _)
  · intro id hid
    exact (hlinked.coming id hid).congr (hother id (hlinked.socket id hid).ne) rfl rfl rfl rfl

theorem Linked.open (hlinked : Linked s) (session : String) :
    Linked ((Action.open session).act s).2 := by
  have hupgraded := hlinked.upgrade session s.tab.asks.1 s.tab.asks.2
  refine ⟨hupgraded.ring, hupgraded.fresh, hupgraded.apart, hupgraded.new, ?_, hlinked.followed,
    hlinked.behind, ?_⟩
  · intro id hid
    cases hid
    exact Nat.lt_succ_self _
  · intro id hid
    cases hid
    refine .asked (update_self s.next _ s.upgrades) rfl ?_
    exact Tab.asks_fst s.tab

theorem Linked.replay (hlinked : Linked s) {id : Nat} (hunbroken : Unbroken s (.replay id)) :
    Linked (s.replay id) := by
  unfold Mirror.replay
  split
  · exact hlinked
  next u hu =>
  split_ifs with hwelcomed
  · exact hlinked
  rw [Bool.not_eq_true] at hwelcomed
  obtain ⟨hclient, hwire⟩ := hlinked.apart id u hu
  have hempty := hlinked.new id u hu hwelcomed
  have hlt : ¬ s.next ≤ id := by
    intro hle
    have hnone := (hlinked.fresh id hle).1
    rw [hu] at hnone
    cases hnone
  refine ⟨hlinked.ring, ?_, ?_, ?_, hlinked.socket, hlinked.followed, hlinked.behind, ?_⟩
  · intro id' hid
    obtain ⟨hu', hrest⟩ := hlinked.fresh id' hid
    refine ⟨(update_of_ne ?_ _ _).trans hu', hrest⟩
    rintro rfl
    exact hlt hid
  · intro id' u' hu'
    by_cases hid : id' = id
    · subst hid
      exact ⟨hclient, hwire⟩
    · exact hlinked.apart id' u' ((update_of_ne hid _ _).symm.trans hu')
  · intro id' u' hu' hopen
    by_cases hid : id' = id
    · subst hid
      have hu' := (update_self id' _ s.upgrades).symm.trans hu'
      obtain ⟨c, _, rfl⟩ := Option.map_eq_some_iff.1 hu'
      cases hopen
    · exact hlinked.new id' u' ((update_of_ne hid _ _).symm.trans hu') hopen
  · intro id' hsocket
    have hcoming := hlinked.coming id' hsocket
    by_cases hid : id' = id
    · subst hid
      have hasks : u.since = s.tab.lastSeq := by
        cases hcoming with
        | asked hu' _ hasks =>
          obtain rfl := Option.some.inj (hu'.symm.trans hu)
          exact hasks
        | welcomed hu' hdone =>
          obtain rfl := Option.some.inj (hu'.symm.trans hu)
          exact absurd (hdone.symm.trans hwelcomed) (by decide)
        | member hnone => cases hnone.symm.trans hu
        | gone hnone => cases hnone.symm.trans hu
      cases hwelcome : u.client.welcome s.hub u.since u.run with
      | none => exact .gone (update_self id' _ _) hclient (.inl hwire)
      | some c =>
        refine .welcomed (update_self id' _ _) rfl ?_
        rw [hasks] at hwelcome
        have hsend := (send_of_welcome hwelcome).2
        rw [hempty, List.nil_append] at hsend
        dsimp only
        rw [hsend]
        refine brings_of_offer hlinked.ring hlinked.followed hlinked.behind _ fun hzero hlog => ?_
        exact hunbroken hsocket u hu hwelcomed (hasks.trans hzero) hlog
    · exact hcoming.congr (update_of_ne hid _ _) rfl rfl rfl rfl

theorem Linked.add (hlinked : Linked s) (id : Nat) : Linked (s.add id) := by
  unfold Mirror.add
  split
  · exact hlinked
  next u hu =>
  split_ifs with hwelcomed
  swap
  · exact hlinked
  obtain ⟨hclient, hwire⟩ := hlinked.apart id u hu
  have hlt : ¬ s.next ≤ id := by
    intro hle
    have hnone := (hlinked.fresh id hle).1
    rw [hu] at hnone
    cases hnone
  have hother : ∀ {id'}, id' ≠ id → (s.hub.add id u.client).clients id' = s.hub.clients id' :=
    fun hid => update_of_ne hid _ _
  refine ⟨hlinked.ring, ?_, ?_, ?_, hlinked.socket, hlinked.followed, hlinked.behind, ?_⟩
  · intro id' hid
    obtain ⟨hu', hc', hw'⟩ := hlinked.fresh id' hid
    have hne : id' ≠ id := by
      rintro rfl
      exact hlt hid
    exact ⟨(update_of_ne hne _ _).trans hu', (hother hne).trans hc', hw'⟩
  · intro id' u' hu'
    by_cases hid : id' = id
    · subst hid
      cases (update_self id' _ s.upgrades).symm.trans hu'
    · obtain ⟨hc', hw'⟩ := hlinked.apart id' u' ((update_of_ne hid _ _).symm.trans hu')
      exact ⟨(hother hid).trans hc', hw'⟩
  · intro id' u' hu'
    by_cases hid : id' = id
    · subst hid
      cases (update_self id' _ s.upgrades).symm.trans hu'
    · exact hlinked.new id' u' ((update_of_ne hid _ _).symm.trans hu')
  · intro id' hsocket
    have hcoming := hlinked.coming id' hsocket
    by_cases hid : id' = id
    · subst hid
      cases hcoming with
      | asked hu' hopen =>
        obtain rfl := Option.some.inj (hu'.symm.trans hu)
        exact absurd (hwelcomed.symm.trans hopen) (by decide)
      | welcomed hu' _ hbrings =>
        obtain rfl := Option.some.inj (hu'.symm.trans hu)
        refine .member (update_self id' _ _) (update_self id' _ _) ?_
        dsimp only
        rw [hwire]
        exact hbrings
      | member hnone => cases hnone.symm.trans hu
      | gone hnone => cases hnone.symm.trans hu
    · exact hcoming.congr (update_of_ne hid _ _) rfl rfl rfl (hother hid)

theorem Linked.write (hlinked : Linked s) (id : Nat) : Linked (s.write id) := by
  unfold Mirror.write
  split
  swap
  · exact hlinked
  next session m ms hc =>
  have hlt : ¬ s.next ≤ id := by
    intro hle
    have hnone := (hlinked.fresh id hle).2.1
    rw [hc] at hnone
    cases hnone
  have hno : s.upgrades id = none := by
    cases hu : s.upgrades id with
    | none => rfl
    | some u => cases (hlinked.apart id u hu).1.symm.trans hc
  have hother : ∀ {id'}, id' ≠ id → (s.hub.add id ⟨session, ms⟩).clients id' = s.hub.clients id' :=
    fun hid => update_of_ne hid _ _
  refine ⟨hlinked.ring, ?_, ?_, hlinked.new, hlinked.socket, hlinked.followed, hlinked.behind, ?_⟩
  · intro id' hid
    obtain ⟨hu', hc', hw'⟩ := hlinked.fresh id' hid
    have hne : id' ≠ id := by
      rintro rfl
      exact hlt hid
    exact ⟨hu', (hother hne).trans hc', (update_of_ne hne _ _).trans hw'⟩
  · intro id' u' hu'
    have hne : id' ≠ id := by
      rintro rfl
      cases hno.symm.trans hu'
    obtain ⟨hc', hw'⟩ := hlinked.apart id' u' hu'
    exact ⟨(hother hne).trans hc', (update_of_ne hne _ _).trans hw'⟩
  · intro id' hsocket
    have hcoming := hlinked.coming id' hsocket
    by_cases hid : id' = id
    · subst hid
      cases hcoming with
      | asked hu' => cases hno.symm.trans hu'
      | welcomed hu' => cases hno.symm.trans hu'
      | member hu' hc' hbrings =>
        obtain rfl := Option.some.inj (hc.symm.trans hc')
        refine .member hu' (update_self id' _ _) ?_
        dsimp only
        rw [update_self, List.append_assoc]
        exact hbrings
      | gone _ hnone => cases hnone.symm.trans hc
    · exact hcoming.congr rfl rfl (update_of_ne hid _ _) rfl (hother hid)

theorem Linked.receive (hlinked : Linked s) : Linked s.receive := by
  unfold Mirror.receive
  split
  · exact hlinked
  next id hsocket =>
  split
  · exact hlinked
  next m ms hwire =>
  have hlt := hlinked.socket id hsocket
  have hno : s.upgrades id = none := by
    cases hu : s.upgrades id with
    | none => rfl
    | some u => cases (hlinked.apart id u hu).2.symm.trans hwire
  have hother : ∀ {id'}, id' ≠ id → update s.wire id ms id' = s.wire id' :=
    fun hid => update_of_ne hid _ _
  have hcoming := hlinked.coming id hsocket
  -- The message is one that leaves no hole, whether or not the socket is still a member.
  obtain ⟨n, hn, hnext⟩ : ∃ n, n ≤ s.hub.seq ∧ ∃ rest, Brings s.tab (m :: (ms ++ rest)) n ∧
      ∀ c, s.hub.clients id = some c → n = s.hub.seq ∧ rest = c.send := by
    cases hcoming with
    | asked hu => cases hno.symm.trans hu
    | welcomed hu => cases hno.symm.trans hu
    | @member c _ hc hbrings =>
      rw [hwire, List.cons_append] at hbrings
      refine ⟨_, le_refl _, _, hbrings, fun c' hc' => ?_⟩
      obtain rfl := Option.some.inj (hc.symm.trans hc')
      exact ⟨rfl, rfl⟩
    | gone _ hc hrest =>
      obtain hempty | ⟨rest, n, hn, hbrings⟩ := hrest
      · cases hempty.symm.trans hwire
      rw [hwire, List.cons_append] at hbrings
      refine ⟨n, hn, rest, hbrings, fun c' hc' => ?_⟩
      cases hc.symm.trans hc'
  obtain ⟨rest, hbrings, hmember⟩ := hnext
  cases hbrings with
  | next hsound hbrings =>
    refine ⟨hlinked.ring, ?_, ?_, hlinked.new, ?_, hsound.followed, hbrings.le.trans hn, ?_⟩
    · intro id' hid
      obtain ⟨hu', hc', hw'⟩ := hlinked.fresh id' hid
      have hne : id' ≠ id := by
        rintro rfl
        exact absurd hlt (Nat.not_lt.2 hid)
      exact ⟨hu', hc', (hother hne).trans hw'⟩
    · intro id' u' hu'
      have hne : id' ≠ id := by
        rintro rfl
        cases hno.symm.trans hu'
      obtain ⟨hc', hw'⟩ := hlinked.apart id' u' hu'
      exact ⟨hc', (hother hne).trans hw'⟩
    · intro id' hid
      rw [Tab.onMessage_socket] at hid
      exact hlinked.socket id' hid
    · intro id' hid
      rw [Tab.onMessage_socket, hsocket] at hid
      cases hid
      have hnow : update s.wire id ms id = ms := update_self id _ _
      cases hc : s.hub.clients id with
      | some c =>
        obtain ⟨rfl, rfl⟩ := hmember c hc
        refine .member hno hc ?_
        dsimp only
        rw [hnow]
        exact hbrings
      | none =>
        refine .gone hno hc (.inr ⟨rest, n, hn, ?_⟩)
        dsimp only
        rw [hnow]
        exact hbrings

/-- What every step keeps. -/
theorem Linked.act (hlinked : Linked s) {x : Action} (hunbroken : Unbroken s x) :
    Linked (x.act s).2 := by
  cases x with
  | publish event data => exact hlinked.publish hunbroken
  | newRun run => exact hlinked.drop rfl Latest.nil fun _ => .inl rfl
  | closeAll => exact hlinked.drop rfl Latest.nil fun _ => .inr rfl
  | closeSessions ids =>
    refine hlinked.drop rfl hlinked.ring fun id => ?_
    unfold RemoteHub.closeSessions
    dsimp only
    cases s.hub.clients id with
    | none => exact .inl rfl
    | some c =>
      rw [Option.filter_some]
      split_ifs
      · exact .inl rfl
      · exact .inr rfl
  | connect session since run => exact hlinked.upgrade session since run
  | «open» session => exact hlinked.open session
  | replay id => exact hlinked.replay hunbroken
  | add id => exact hlinked.add id
  | write id => exact hlinked.write id
  | remove id =>
    refine hlinked.drop rfl hlinked.ring fun id' => ?_
    by_cases hid : id' = id
    · subst hid
      exact .inr (update_self id' _ _)
    · exact .inl (update_of_ne hid _ _)
  | receive => exact hlinked.receive
  | close =>
    exact { hlinked with
      socket := fun _ hid => nomatch hid
      coming := fun _ hid => nomatch hid }
  | reload =>
    exact { hlinked with
      socket := fun _ hid => nomatch hid
      followed := .nil
      behind := Nat.zero_le _
      coming := fun _ hid => nomatch hid }

theorem linked_of_run (hrun : Labelled.Run system (fun _ s x => Unbroken s x) {} h s) :
    Linked s := by
  refine hrun.invariant (P := fun _ s => Linked s) Linked.empty ?_
  intro h s x _ hlinked _ hunbroken
  exact hlinked.act hunbroken

/-! ## The events -/

/-- An event that was published. -/
def Published (h : Labelled.History Mirror Action) (f : Frame) : Prop :=
  ∃ e ∈ h, ∃ event data, e.2 = .publish event (some data) ∧
    f = ⟨e.1.hub.seq + 1, event, data⟩

theorem Published.cons {f : Frame} (hf : Published h f) (e : Mirror × Action) :
    Published (e :: h) f := by
  obtain ⟨e', he, hpublish⟩ := hf
  exact ⟨e', List.mem_cons_of_mem e he, hpublish⟩

/-- A message is a hello, or tells of an event that was published. -/
def Told (h : Labelled.History Mirror Action) (m : Message) : Prop :=
  ∀ f, m = .event f → Published h f

/-- Every event on its way was published, no number was given twice, and none is past the hub's. -/
structure Sent (h : Labelled.History Mirror Action) (s : Mirror) : Prop where
  ring : ∀ f ∈ s.hub.ring, Published h f
  upgrades : ∀ id u, s.upgrades id = some u → ∀ m ∈ u.client.send, Told h m
  clients : ∀ id c, s.hub.clients id = some c → ∀ m ∈ c.send, Told h m
  wire : ∀ id, ∀ m ∈ s.wire id, Told h m
  log : ∀ f, .apply f ∈ s.tab.log → Published h f
  past : ∀ f, Published h f → f.seq ≤ s.hub.seq
  once : ∀ f g, Published h f → Published h g → f.seq = g.seq → f = g

theorem told_of_queue {c c' : RemoteClient} {m : Message} (hc : ∀ m ∈ c.send, Told h m)
    (hm : Told h m) (hqueue : c.queue m = some c') : ∀ m ∈ c'.send, Told h m := by
  unfold RemoteClient.queue at hqueue
  split_ifs at hqueue
  cases hqueue
  intro m' hmem
  obtain hmem | hmem := List.mem_append.1 hmem
  · exact hc m' hmem
  · rw [List.mem_singleton.1 hmem]
    exact hm

theorem Told.cons {m : Message} (hm : Told h m) (e : Mirror × Action) : Told (e :: h) m :=
  fun f hf => (hm f hf).cons e

theorem told_hello (seq replayed : Nat) (gap : Bool) (run : String) :
    Told h (.hello seq replayed gap run) := nofun

/-- A step that publishes nothing. -/
theorem Sent.quiet (hsent : Sent h s) {x : Action} {s' : Mirror}
    (hquiet : ∀ event data, x ≠ .publish event (some data)) (hseq : s'.hub.seq = s.hub.seq)
    (hring : ∀ f ∈ s'.hub.ring, f ∈ s.hub.ring)
    (hupgrades : ∀ id u, s'.upgrades id = some u → ∀ m ∈ u.client.send, Told h m)
    (hclients : ∀ id c, s'.hub.clients id = some c → ∀ m ∈ c.send, Told h m)
    (hwire : ∀ id, ∀ m ∈ s'.wire id, Told h m)
    (hlog : ∀ f, .apply f ∈ s'.tab.log → Published h f) : Sent ((s, x) :: h) s' := by
  have hbefore : ∀ {f}, Published ((s, x) :: h) f → Published h f := by
    rintro f ⟨e, he, event, data, hpublish, hf⟩
    obtain rfl | he := List.mem_cons.1 he
    · exact absurd hpublish (hquiet event data)
    · exact ⟨e, he, event, data, hpublish, hf⟩
  refine ⟨fun f hf => (hsent.ring f (hring f hf)).cons _,
    fun id u hu m hm => (hupgrades id u hu m hm).cons _,
    fun id c hc m hm => (hclients id c hc m hm).cons _, fun id m hm => (hwire id m hm).cons _,
    fun f hf => (hlog f hf).cons _, fun f hf => ?_,
    fun f g hf hg => hsent.once f g (hbefore hf) (hbefore hg)⟩
  rw [hseq]
  exact hsent.past f (hbefore hf)

theorem Sent.publish (hsent : Sent h s) (event data : String) :
    Sent ((s, .publish event (some data)) :: h)
      { s with hub := s.hub.publish event (some data) } := by
  have hnow : Published ((s, .publish event (some data)) :: h) ⟨s.hub.seq + 1, event, data⟩ :=
    ⟨_, List.mem_cons_self, event, data, rfl, rfl⟩
  have hcases : ∀ f, Published ((s, .publish event (some data)) :: h) f →
      Published h f ∨ f = ⟨s.hub.seq + 1, event, data⟩ := by
    rintro f ⟨e, he, event', data', hpublish, hf⟩
    obtain rfl | he := List.mem_cons.1 he
    · cases hpublish
      exact .inr hf
    · exact .inl ⟨e, he, event', data', hpublish, hf⟩
  refine ⟨?_, ?_, ?_, ?_, ?_, ?_, ?_⟩
  · intro f hf
    obtain hf | hf := List.mem_append.1 hf
    · refine (hsent.ring f ?_).cons _
      split_ifs at hf
      · exact List.mem_of_mem_drop hf
      · exact hf
    · rw [List.mem_singleton.1 hf]
      exact hnow
  · exact fun id u hu m hm => (hsent.upgrades id u hu m hm).cons _
  · intro id c hc
    rw [RemoteHub.clients_publish] at hc
    obtain ⟨c₀, hc₀, hqueue⟩ := Option.bind_eq_some_iff.1 hc
    refine told_of_queue (fun m hm => (hsent.clients id c₀ hc₀ m hm).cons _) ?_ hqueue
    intro f hf
    cases hf
    exact hnow
  · exact fun id m hm => (hsent.wire id m hm).cons _
  · exact fun f hf => (hsent.log f hf).cons _
  · intro f hf
    obtain hf | rfl := hcases f hf
    · exact (hsent.past f hf).trans (Nat.le_succ _)
    · exact Nat.le_refl _
  · intro f g hf hg hseq
    obtain hf | rfl := hcases f hf
    · obtain hg | rfl := hcases g hg
      · exact hsent.once f g hf hg hseq
      · have hle := hsent.past f hf
        rw [hseq] at hle
        exact absurd hle (Nat.not_succ_le_self _)
    · obtain hg | rfl := hcases g hg
      · have hle := hsent.past g hg
        rw [← hseq] at hle
        exact absurd hle (Nat.not_succ_le_self _)
      · rfl

theorem upgrades_of_update {us : Nat → Option Upgrade} {id : Nat} {o : Option Upgrade}
    (hus : ∀ id u, us id = some u → ∀ m ∈ u.client.send, Told h m)
    (ho : ∀ u, o = some u → ∀ m ∈ u.client.send, Told h m) :
    ∀ id' u, update us id o id' = some u → ∀ m ∈ u.client.send, Told h m := by
  intro id' u hu
  by_cases hid : id' = id
  · subst hid
    exact ho u ((update_self id' _ us).symm.trans hu)
  · exact hus id' u ((update_of_ne hid _ _).symm.trans hu)

theorem clients_of_update {cs : Nat → Option RemoteClient} {id : Nat} {o : Option RemoteClient}
    (hcs : ∀ id c, cs id = some c → ∀ m ∈ c.send, Told h m)
    (ho : ∀ c, o = some c → ∀ m ∈ c.send, Told h m) :
    ∀ id' c, update cs id o id' = some c → ∀ m ∈ c.send, Told h m := by
  intro id' c hc
  by_cases hid : id' = id
  · subst hid
    exact ho c ((update_self id' _ cs).symm.trans hc)
  · exact hcs id' c ((update_of_ne hid _ _).symm.trans hc)

theorem wire_of_update {wire : Nat → List Message} {id : Nat} {ms : List Message}
    (hwire : ∀ id, ∀ m ∈ wire id, Told h m) (hms : ∀ m ∈ ms, Told h m) :
    ∀ id', ∀ m ∈ update wire id ms id', Told h m := by
  intro id' m hm
  by_cases hid : id' = id
  · subst hid
    rw [update_self] at hm
    exact hms m hm
  · rw [update_of_ne hid] at hm
    exact hwire id' m hm

/-- A step that does nothing. -/
theorem Sent.idle (hsent : Sent h s) {x : Action}
    (hquiet : ∀ event data, x ≠ .publish event (some data)) : Sent ((s, x) :: h) s :=
  hsent.quiet hquiet rfl (fun _ hf => hf) hsent.upgrades hsent.clients hsent.wire hsent.log

theorem Sent.replay (hsent : Sent h s) (id : Nat) : Sent ((s, .replay id) :: h) (s.replay id) := by
  unfold Mirror.replay
  split
  · exact hsent.idle nofun
  next u hu =>
  split_ifs
  · exact hsent.idle nofun
  refine hsent.quiet nofun rfl (fun _ hf => hf) ?_ hsent.clients hsent.wire hsent.log
  refine upgrades_of_update hsent.upgrades fun u' hu' => ?_
  obtain ⟨c, hwelcome, rfl⟩ := Option.map_eq_some_iff.1 hu'
  intro m hm
  rw [(send_of_welcome hwelcome).2] at hm
  obtain hm | hm := List.mem_append.1 hm
  · exact hsent.upgrades id u hu m hm
  obtain rfl | hm := List.mem_cons.1 hm
  · exact told_hello _ _ _ _
  · obtain ⟨f, hf, rfl⟩ := List.mem_map.1 hm
    intro g hg
    cases hg
    exact hsent.ring f (mem_of_offer hf)

theorem Sent.add (hsent : Sent h s) (id : Nat) : Sent ((s, .add id) :: h) (s.add id) := by
  unfold Mirror.add
  split
  · exact hsent.idle nofun
  next u hu =>
  split_ifs
  · refine hsent.quiet nofun rfl (fun _ hf => hf) ?_ ?_ hsent.wire hsent.log
    · exact upgrades_of_update hsent.upgrades nofun
    · refine clients_of_update hsent.clients fun c hc => ?_
      cases hc
      exact hsent.upgrades id u hu
  · exact hsent.idle nofun

theorem Sent.write (hsent : Sent h s) (id : Nat) : Sent ((s, .write id) :: h) (s.write id) := by
  unfold Mirror.write
  split
  · next session m ms hc =>
    have hsend := hsent.clients id _ hc
    refine hsent.quiet nofun rfl (fun _ hf => hf) hsent.upgrades ?_ ?_ hsent.log
    · refine clients_of_update hsent.clients fun c hc' => ?_
      cases hc'
      exact fun m' hm' => hsend m' (List.mem_cons_of_mem m hm')
    · refine wire_of_update hsent.wire fun m' hm' => ?_
      obtain hm' | hm' := List.mem_append.1 hm'
      · exact hsent.wire id m' hm'
      · rw [List.mem_singleton.1 hm']
        exact hsend m List.mem_cons_self
  · exact hsent.idle nofun

/-- A page applies an event only when told of it. -/
theorem apply_of_onMessage {m : Message} {f : Frame} (hf : .apply f ∈ (t.onMessage m).log) :
    .apply f ∈ t.log ∨ m = .event f := by
  unfold Tab.onMessage Tab.onHello at hf
  cases m with
  | hello seq replayed gap run =>
    dsimp only at hf
    split_ifs at hf
    · exact .inl ((List.mem_cons.1 hf).resolve_left nofun)
    · exact .inl ((List.mem_cons.1 hf).resolve_left nofun)
    · exact .inl hf
  | event g =>
    dsimp only at hf
    split_ifs at hf
    · exact .inl hf
    · obtain hf | hf := List.mem_cons.1 hf
      · cases hf
        exact .inr rfl
      · exact .inl hf

theorem Sent.receive (hsent : Sent h s) : Sent ((s, .receive) :: h) s.receive := by
  unfold Mirror.receive
  split
  · exact hsent.idle nofun
  next id _ =>
  split
  · exact hsent.idle nofun
  next m ms hwire =>
  have htold := hsent.wire id
  rw [hwire] at htold
  refine hsent.quiet nofun rfl (fun _ hf => hf) hsent.upgrades hsent.clients ?_ ?_
  · exact wire_of_update hsent.wire fun m' hm' => htold m' (List.mem_cons_of_mem m hm')
  · intro f hf
    obtain hf | rfl := apply_of_onMessage hf
    · exact hsent.log f hf
    · exact htold _ List.mem_cons_self f rfl

theorem Sent.act (hsent : Sent h s) (x : Action) : Sent ((s, x) :: h) (x.act s).2 := by
  have hnone : ∀ m ∈ ([] : List Message), Told h m := fun _ hm => nomatch hm
  cases x with
  | publish event data =>
    cases data with
    | none => exact hsent.idle nofun
    | some data => exact hsent.publish event data
  | newRun run =>
    exact hsent.quiet nofun rfl (fun _ hf => nomatch hf) hsent.upgrades hsent.clients hsent.wire
      hsent.log
  | closeAll =>
    exact hsent.quiet nofun rfl (fun _ hf => nomatch hf) hsent.upgrades (fun _ _ hc => nomatch hc)
      hsent.wire hsent.log
  | closeSessions ids =>
    refine hsent.quiet nofun rfl (fun _ hf => hf) hsent.upgrades (fun id c hc => ?_) hsent.wire
      hsent.log
    exact hsent.clients id c (Option.filter_eq_some_iff.1 hc).1
  | connect session since run =>
    refine hsent.quiet nofun rfl (fun _ hf => hf) ?_ hsent.clients hsent.wire hsent.log
    refine upgrades_of_update hsent.upgrades fun u hu => ?_
    cases hu
    exact hnone
  | «open» session =>
    refine hsent.quiet nofun rfl (fun _ hf => hf) ?_ hsent.clients hsent.wire hsent.log
    refine upgrades_of_update hsent.upgrades fun u hu => ?_
    cases hu
    exact hnone
  | replay id => exact hsent.replay id
  | add id => exact hsent.add id
  | write id => exact hsent.write id
  | remove id =>
    exact hsent.quiet nofun rfl (fun _ hf => hf) hsent.upgrades
      (clients_of_update hsent.clients nofun) hsent.wire hsent.log
  | receive => exact hsent.receive
  | close =>
    exact hsent.quiet nofun rfl (fun _ hf => hf) hsent.upgrades hsent.clients hsent.wire hsent.log
  | reload =>
    exact hsent.quiet nofun rfl (fun _ hf => hf) hsent.upgrades hsent.clients hsent.wire
      (fun _ hf => nomatch hf)

theorem Sent.empty : Sent [] {} where
  ring _ hf := nomatch hf
  upgrades _ _ hu := nomatch hu
  clients _ _ hc := nomatch hc
  wire _ _ hm := nomatch hm
  log _ hf := nomatch hf
  past _ := fun ⟨_, he, _⟩ => nomatch he
  once _ _ := fun ⟨_, he, _⟩ => nomatch he

theorem sent_of_run {allowed : Labelled.History Mirror Action → Mirror → Action → Prop}
    (hrun : Labelled.Run system allowed {} h s) : Sent h s := by
  refine hrun.invariant (P := fun h s => Sent h s) Sent.empty ?_
  intro h s x _ hsent _ _
  exact hsent.act x

/-! ## Every run -/

/-- As long as nothing is published between the replay of the page's socket and its membership, and
the page does not come back with no position to a hub that has numbered events: since the page took
its position, or was last told to start anew, it has applied the events published after that one by
one, each once and in order; and once it has read all a socket brought that is a member, it has
applied the latest. -/
theorem event_mirror (hrun : Labelled.Run system (fun _ s x => Unbroken s x) {} h s) :
    (∀ newer mark older start, s.tab.log = newer ++ mark :: older →
      (mark = .position start ∨ mark = .resync start) → (∀ e ∈ newer, ∀ n, e ≠ .resync n) →
      (applied newer).map Frame.seq = List.range' (start + 1) (s.tab.lastSeq - start) ∧
      (∀ f ∈ applied newer, Published h f) ∧
      ∀ f, Published h f → start < f.seq → f.seq ≤ s.tab.lastSeq → f ∈ applied newer) ∧
    ∀ id c, s.tab.socket = some id → s.hub.clients id = some c → c.send = [] → s.wire id = [] →
      ∀ f, Published h f → f.seq ≤ s.tab.lastSeq := by
  have hlinked := linked_of_run hrun
  have hsent := sent_of_run hrun
  refine ⟨?_, ?_⟩
  · intro newer mark older start hlog hmark hnewer
    obtain ⟨hle, hseqs⟩ := hlinked.followed.applied_since hlog hmark hnewer
    have hpublished : ∀ f ∈ applied newer, Published h f := by
      intro f hf
      refine hsent.log f ?_
      rw [hlog]
      exact List.mem_append_left _ (mem_of_applied hf)
    refine ⟨hseqs, hpublished, fun f hf hstart hend => ?_⟩
    have hmem : f.seq ∈ (applied newer).map Frame.seq := by
      rw [hseqs, List.mem_range'_1]
      omega
    obtain ⟨g, hg, hsame⟩ := List.mem_map.1 hmem
    rw [← hsent.once g f (hpublished g hg) hf hsame]
    exact hg
  · intro id c hsocket hc hsend hwire f hf
    cases hlinked.coming id hsocket with
    | asked hu => cases (hlinked.apart id _ hu).1.symm.trans hc
    | welcomed hu => cases (hlinked.apart id _ hu).1.symm.trans hc
    | member _ hc' hbrings =>
      obtain rfl := Option.some.inj (hc.symm.trans hc')
      rw [hsend, hwire, List.append_nil] at hbrings
      rw [hbrings.eq_of_nil]
      exact hsent.past f hf
    | gone _ hc' => cases hc'.symm.trans hc

section

/-- A page connects, and hears the hello. -/
private def arrive (id : Nat) : List Action :=
  [.receive, .write id, .add id, .replay id, .open "phone"]

/-- An event is published and reaches the page. -/
private def deliver (id : Nat) (data : String) : List Action :=
  [.receive, .write id, .publish "status" (some data)]

theorem event_mirror_phone :
    let run := system.play {} (deliver 0 "up" ++ arrive 0)
    run.2.tab.log = [.apply ⟨1, "status", "up"⟩] ++ .position 0 :: [] ∧
      ∀ f, Published run.1 f → 0 < f.seq → f.seq ≤ run.2.tab.lastSeq →
        f ∈ applied [.apply ⟨1, "status", "up"⟩] := by
  have hplayable : system.Playable (fun _ s x => Unbroken s x) {} (deliver 0 "up" ++ arrive 0) := by
    decide
  have hlog : (system.play {} (deliver 0 "up" ++ arrive 0)).2.tab.log =
      [.apply ⟨1, "status", "up"⟩] ++ .position 0 :: [] := by decide
  refine ⟨hlog, ?_⟩
  obtain ⟨_, _, hall⟩ := (event_mirror hplayable.run).1 _ _ _ 0 hlog (.inl rfl) (by
    intro e he n
    rw [List.mem_singleton.1 he]
    exact nofun)
  exact hall

/-- A page comes back, an event is published after the replay and before the membership, and the
next one is applied. -/
private def between : List Action :=
  deliver 1 "three" ++ [.receive, .write 1, .add 1, .publish "status" (some "two"), .replay 1,
    .open "phone", .close] ++ deliver 0 "one" ++ arrive 0 ++ [.newRun "first"]

/-- A page that has heard the hello and no event comes back after one was published. -/
private def early : List Action :=
  arrive 1 ++ [.publish "status" (some "one"), .close] ++ arrive 0

/-- The page was never told to start anew, and is past an event that was published after its first
hello and that it never applied. -/
theorem missed_between :
    (Labelled.Run system (fun _ _ _ => True) {} (system.play {} between).1
        (system.play {} between).2 ∧
      Published (system.play {} between).1 ⟨2, "status", "two"⟩ ∧
      (system.play {} between).2.tab.lastSeq = 3 ∧
      (system.play {} between).2.tab.log = [.apply ⟨3, "status", "three"⟩, .position 1,
        .apply ⟨1, "status", "one"⟩, .position 0]) ∧
    Labelled.Run system (fun _ _ _ => True) {} (system.play {} early).1
        (system.play {} early).2 ∧
      Published (system.play {} early).1 ⟨1, "status", "one"⟩ ∧
      (system.play {} early).2.tab.lastSeq = 1 ∧
      (system.play {} early).2.tab.log = [.position 1, .position 0] := by
  refine ⟨⟨Labelled.System.Playable.run (by decide), ?_, by decide, by decide⟩,
    Labelled.System.Playable.run (by decide), ?_, by decide, by decide⟩
  · refine ⟨_, List.mem_of_getElem? (i := 6) rfl, "status", "two", rfl, ?_⟩
    decide
  · refine ⟨_, List.mem_of_getElem? (i := 5) rfl, "status", "one", rfl, ?_⟩
    decide

end

end Konnekt.Remote.Mirror
