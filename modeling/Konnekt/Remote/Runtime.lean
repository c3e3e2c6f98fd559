import Konnekt.Remote.Hub

/-!
# A browser's event mirror

What a page does with the frames of its socket: the position it keeps, and whether it
applies an event, passes it over, or starts anew.
-/

namespace Konnekt.Remote

/-- What a page does: take the server's position, start anew from it, or apply an event. -/
inductive Effect where
  | position (seq : Nat)
  | resync (seq : Nat)
  | apply (f : Frame)
  deriving DecidableEq, Repr

/-- The state of `remoteRuntime.ts`, with what it has done, the last first. -/
structure Tab where
  lastSeq : Nat := 0
  run : String := ""
  socket : Option Nat := none
  log : List Effect := []
  deriving DecidableEq, Repr

namespace Tab

/-- `onHello`. -/
def onHello (seq replayed : Nat) (gap : Bool) (run : String) (t : Tab) : Tab :=
  let t := { t with run }
  if gap ∨ seq < t.lastSeq then { t with lastSeq := seq, log := .resync seq :: t.log }
  else if replayed = 0 then { t with lastSeq := seq, log := .position seq :: t.log }
  else t

/-- `onmessage`. -/
def onMessage (m : Message) (t : Tab) : Tab :=
  match m with
  | .hello seq replayed gap run => t.onHello seq replayed gap run
  | .event f =>
    if f.seq ≤ t.lastSeq then t else { t with lastSeq := f.seq, log := .apply f :: t.log }

theorem onMessage_socket (m : Message) (t : Tab) : (t.onMessage m).socket = t.socket := by
  unfold onMessage onHello
  repeat' first | rfl | dsimp only | split

theorem onMessage_gap (seq replayed : Nat) (run : String) (t : Tab) :
    t.onMessage (.hello seq replayed true run) =
      { t with run, lastSeq := seq, log := .resync seq :: t.log } := by
  unfold onMessage onHello
  dsimp only
  rw [if_pos (.inl rfl)]

theorem onMessage_position {seq : Nat} {t : Tab} (hle : t.lastSeq ≤ seq) (run : String) :
    t.onMessage (.hello seq 0 false run) =
      { t with run, lastSeq := seq, log := .position seq :: t.log } := by
  unfold onMessage onHello
  dsimp only
  rw [if_neg (not_or.2 ⟨Bool.false_ne_true, Nat.not_lt.2 hle⟩), if_pos rfl]

theorem onMessage_replay {seq replayed : Nat} {t : Tab} (hle : t.lastSeq ≤ seq)
    (hreplayed : replayed ≠ 0) (run : String) :
    t.onMessage (.hello seq replayed false run) = { t with run } := by
  unfold onMessage onHello
  dsimp only
  rw [if_neg (not_or.2 ⟨Bool.false_ne_true, Nat.not_lt.2 hle⟩), if_neg hreplayed]

/-- What `open` asks the server for: nothing while it has no position. -/
def asks (t : Tab) : Nat × String := if 0 < t.lastSeq then (t.lastSeq, t.run) else (0, "")

end Tab

/-! ## A log without a hole -/

/-- A log that leaves nothing out, up to a position: the page takes a position once, starts anew
wherever it is told to, and applies the event after its position. -/
inductive Followed : List Effect → Nat → Prop
  | nil : Followed [] 0
  | first (n : Nat) : Followed [.position n] n
  | position {log : List Effect} {n : Nat} (h : Followed log n) (hlog : log ≠ []) :
      Followed (.position n :: log) n
  | resync {log : List Effect} {m : Nat} (h : Followed log m) (n : Nat) :
      Followed (.resync n :: log) n
  | apply {log : List Effect} {n : Nat} {f : Frame} (h : Followed log n) (hlog : log ≠ [])
      (hf : f.seq = n + 1) : Followed (.apply f :: log) (n + 1)

/-- The events that were applied, in their order. -/
def applied (log : List Effect) : List Frame :=
  (log.filterMap fun e => match e with
    | .apply f => some f
    | _ => none).reverse

theorem mem_of_applied {log : List Effect} {f : Frame} (hf : f ∈ applied log) :
    .apply f ∈ log := by
  obtain ⟨e, he, happly⟩ := List.mem_filterMap.1 (List.mem_reverse.1 hf)
  cases e with
  | apply g =>
    cases happly
    exact he
  | _ => cases happly

namespace Followed

variable {log newer older : List Effect} {n : Nat} {mark : Effect}

/-- Since a position was taken, or the page started anew, each event after it is applied once, in
order. -/
theorem applied_since (h : Followed log n) (hlog : log = newer ++ mark :: older)
    {start : Nat} (hmark : mark = .position start ∨ mark = .resync start)
    (hnewer : ∀ e ∈ newer, ∀ m, e ≠ .resync m) :
    start ≤ n ∧ (applied newer).map Frame.seq = List.range' (start + 1) (n - start) := by
  induction h generalizing newer with
  | nil => exact absurd hlog (by simp)
  | first m =>
    cases newer with
    | nil =>
      obtain ⟨rfl, _⟩ := List.cons.inj hlog
      obtain hmark | hmark := hmark <;> cases hmark
      exact ⟨le_refl _, by rw [Nat.sub_self]; rfl⟩
    | cons e newer =>
      have htail := (List.cons.inj hlog).2
      simp at htail
  | position h hne ih =>
    cases newer with
    | nil =>
      obtain ⟨rfl, _⟩ := List.cons.inj hlog
      obtain hmark | hmark := hmark <;> cases hmark
      exact ⟨le_refl _, by rw [Nat.sub_self]; rfl⟩
    | cons e newer =>
      obtain ⟨rfl, htail⟩ := List.cons.inj hlog
      have hsince := ih htail fun e he => hnewer e (List.mem_cons_of_mem _ he)
      exact hsince
  | resync h m ih =>
    cases newer with
    | nil =>
      obtain ⟨rfl, _⟩ := List.cons.inj hlog
      obtain hmark | hmark := hmark <;> cases hmark
      exact ⟨le_refl _, by rw [Nat.sub_self]; rfl⟩
    | cons e newer =>
      obtain ⟨rfl, _⟩ := List.cons.inj hlog
      exact absurd rfl (hnewer _ List.mem_cons_self m)
  | @apply log n f h hne hf ih =>
    cases newer with
    | nil =>
      obtain ⟨rfl, _⟩ := List.cons.inj hlog
      obtain hmark | hmark := hmark <;> cases hmark
    | cons e newer =>
      obtain ⟨rfl, htail⟩ := List.cons.inj hlog
      obtain ⟨hle, hseqs⟩ := ih htail fun e he => hnewer e (List.mem_cons_of_mem _ he)
      refine ⟨hle.trans (Nat.le_succ n), ?_⟩
      have happlied : applied (.apply f :: newer) = applied newer ++ [f] := by
        unfold applied
        rw [List.filterMap_cons, List.reverse_cons]
      have hcount : n + 1 - start = n - start + 1 := by omega
      have hlast : start + 1 + 1 * (n - start) = n + 1 := by omega
      rw [happlied, List.map_append, hseqs, hcount, List.range'_concat, hlast, List.map_singleton,
        hf]

end Followed

/-! ## What a socket brings -/

/-- A message that leaves no hole in the log, and does not take the page back. -/
structure Tab.Sound (m : Message) (t : Tab) : Prop where
  followed : Followed (t.onMessage m).log (t.onMessage m).lastSeq
  ahead : t.lastSeq ≤ (t.onMessage m).lastSeq

/-- Messages that bring a page up to a number without a hole. -/
inductive Brings : Tab → List Message → Nat → Prop
  | done {t : Tab} (hlog : t.log ≠ []) : Brings t [] t.lastSeq
  | next {t : Tab} {m : Message} {ms : List Message} {n : Nat} (hsound : t.Sound m)
      (h : Brings (t.onMessage m) ms n) : Brings t (m :: ms) n

namespace Brings

variable {t : Tab} {ms : List Message} {n : Nat} {fs : List Frame}

/-- An event past the position of a page that has one. -/
theorem sound_event {f : Frame} (hfollowed : Followed t.log t.lastSeq) (hlog : t.log ≠ [])
    (hf : f.seq ≤ t.lastSeq + 1) : t.Sound (.event f) := by
  by_cases hold : f.seq ≤ t.lastSeq
  · have hafter : t.onMessage (.event f) = t := if_pos hold
    refine ⟨?_, ?_⟩
    · rw [hafter]
      exact hfollowed
    · rw [hafter]
  · have hafter : t.onMessage (.event f) =
        { t with lastSeq := f.seq, log := .apply f :: t.log } := if_neg hold
    have hseq : f.seq = t.lastSeq + 1 := by omega
    refine ⟨?_, ?_⟩
    · rw [hafter, hseq]
      exact hfollowed.apply hlog hseq
    · rw [hafter]
      exact Nat.le_of_not_le hold

theorem eq_of_nil (h : Brings t [] n) : t.lastSeq = n := by
  cases h
  rfl

/-- A page is never ahead of what it is brought up to. -/
theorem le (h : Brings t ms n) : t.lastSeq ≤ n := by
  induction h with
  | done => exact Nat.le_refl _
  | next hsound _ ih => exact hsound.ahead.trans ih

/-- The next event brings a page one further. -/
theorem append (h : Brings t ms n) (hfollowed : Followed t.log t.lastSeq) {f : Frame}
    (hf : f.seq = n + 1) : Brings t (ms ++ [.event f]) (n + 1) := by
  induction h with
  | @done t hlog =>
    have hnew : ¬ f.seq ≤ t.lastSeq := by omega
    have hafter : t.onMessage (.event f) =
        { t with lastSeq := f.seq, log := .apply f :: t.log } := if_neg hnew
    have hdone : Brings (t.onMessage (.event f)) [] (t.onMessage (.event f)).lastSeq := by
      apply Brings.done
      rw [hafter]
      exact List.cons_ne_nil _ _
    rw [hafter] at hdone
    dsimp only at hdone
    rw [hf] at hdone
    refine .next (sound_event hfollowed hlog hf.le) ?_
    rw [hafter, hf]
    exact hdone
  | next hsound _ ih => exact .next hsound (ih hsound.followed hf)

/-- Events that are old, or go on from the position. -/
theorem events (hfollowed : Followed t.log t.lastSeq) (hlog : t.log ≠ []) (hle : t.lastSeq ≤ n)
    (hfs : fs.map Frame.seq = List.range' (t.lastSeq + 1) (n - t.lastSeq)) :
    Brings t (fs.map .event) n := by
  induction fs generalizing t with
  | nil =>
    have hn : n - t.lastSeq = 0 := by
      have hlength := congrArg List.length hfs
      rw [List.length_range'] at hlength
      exact hlength.symm
    have hn : n = t.lastSeq := by omega
    rw [hn]
    exact .done hlog
  | cons f fs ih =>
    have hmore : n - t.lastSeq = n - (t.lastSeq + 1) + 1 := by
      have hlength := congrArg List.length hfs
      rw [List.length_range', List.length_map, List.length_cons] at hlength
      omega
    rw [hmore, List.range'_succ, List.map_cons] at hfs
    obtain ⟨hf, hfs⟩ := List.cons.inj hfs
    have hsound := sound_event hfollowed hlog hf.le
    have hafter : t.onMessage (.event f) =
        { t with lastSeq := f.seq, log := .apply f :: t.log } := if_neg (by omega)
    refine .next hsound (ih hsound.followed ?_ ?_ ?_)
    · rw [hafter]
      exact List.cons_ne_nil _ _
    · rw [hafter]
      dsimp only
      omega
    · rw [hafter]
      dsimp only
      rw [hf]
      exact hfs

/-- Events that are all old change nothing. -/
theorem old (hfollowed : Followed t.log t.lastSeq) (hlog : t.log ≠ [])
    (hfs : ∀ f ∈ fs, f.seq ≤ t.lastSeq) : Brings t (fs.map .event) t.lastSeq := by
  induction fs with
  | nil => exact .done hlog
  | cons f fs ih =>
    have hf := hfs f List.mem_cons_self
    have hafter : t.onMessage (.event f) = t := if_pos hf
    refine .next (sound_event hfollowed hlog (by omega)) ?_
    rw [hafter]
    exact ih fun g hg => hfs g (List.mem_cons_of_mem f hg)

end Brings

end Konnekt.Remote
