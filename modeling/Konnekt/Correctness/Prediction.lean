import Konnekt.Correctness.Ticker
import Konnekt.Scheduler.Blocks
import Konnekt.Scheduler.Triggers

/-!
# The displayed next run and the real one

The prediction of a trigger is compared with the first firing of a ticker that
evaluates every minute boundary from now on. They agree under a condition of its
own for each kind of trigger, because the prediction does not consult the debounce
that firing consults.
-/

namespace Konnekt.Scheduler

open Go

/-! ## Reachable states -/

/-- What the time triggers depend on. -/
structure TriggerState where
  graphs : List Graph
  lastFired : LastFired
  now : Int

/-- The states of a running scheduler: graphs are edited, time passes, the ticker evaluates
its triggers and events fire theirs. -/
inductive TriggerReachable {W : Type} (svc : Services W) (loc : Location) : TriggerState → Prop
  | start (graphs : List Graph) (now : Int) : TriggerReachable svc loc ⟨graphs, ∅, now⟩
  | edit {s : TriggerState} (graphs : List Graph) (h : TriggerReachable svc loc s) :
      TriggerReachable svc loc { s with graphs := graphs }
  | later {s : TriggerState} (now : Int) (hnow : s.now ≤ now) (h : TriggerReachable svc loc s) :
      TriggerReachable svc loc { s with now := now }
  | tick {s : TriggerState} (h : TriggerReachable svc loc s) :
      TriggerReachable svc loc { s with
        lastFired := (evaluateTimeTriggers loc s.graphs s.now s.lastFired).lastFired }
  | event {s : TriggerState} {w : W} (hw : svc.now w = s.now) (serverID : String)
      (wants : Node → Bool) (seedData : GoMap Value) (label : String)
      (h : TriggerReachable svc loc s) :
      TriggerReachable svc loc { s with
        lastFired := (fireEventTriggers svc w s.graphs serverID wants seedData label
          s.lastFired).lastFired }

/-- No trigger fired in the future. -/
def FiredBy (now : Int) (lastFired : LastFired) : Prop :=
  ∀ key t, lastFired.lookup key = some t → t ≤ now

theorem FiredBy.insert {now t : Int} {lastFired : LastFired} (h : FiredBy now lastFired)
    (key : String) (ht : t ≤ now) : FiredBy now (lastFired.insert key t) := by
  intro key' t' hlookup
  by_cases hkey : key' = key
  · rw [hkey, AList.lookup_insert] at hlookup
    cases hlookup
    exact ht
  · rw [AList.lookup_insert_ne hkey] at hlookup
    exact h key' t' hlookup

/-- A turn keeps a node's entry or sets it to the present. -/
theorem timeTurn_entry {loc : Location} {n : Node} {now : Int} {last entry : Option Int}
    {label : String} {fires : Bool}
    (h : timeTurn loc n now last = some (label, entry, fires)) :
    entry = last ∨ entry = some now := by
  have hinterval : (maybeFireInterval n now last).1 = last ∨
      (maybeFireInterval n now last).1 = some now := by
    unfold maybeFireInterval
    cases last with
    | none => exact .inr rfl
    | some l =>
      dsimp only
      split
      · exact .inl rfl
      · exact .inr rfl
  have htimeOfDay : (maybeFireTimeOfDay loc n now last).1 = last ∨
      (maybeFireTimeOfDay loc n now last).1 = some now := by
    unfold maybeFireTimeOfDay
    cases parseTimeOfDay n with
    | none => exact .inl rfl
    | some hm =>
      dsimp only
      split
      · exact .inl rfl
      · cases last with
        | none => exact .inr rfl
        | some l =>
          dsimp only
          split
          · exact .inl rfl
          · exact .inr rfl
  have hcron : (maybeFireCron loc n now last).1 = last ∨
      (maybeFireCron loc n now last).1 = some now := by
    rw [maybeFireCron_eq]
    unfold Debounce.after
    split
    · exact .inr rfl
    · exact .inl rfl
  unfold timeTurn at h
  split at h
  · have heq : (maybeFireInterval n now last).1 = entry := congrArg (·.2.1) (Option.some.inj h)
    exact heq ▸ hinterval
  · split at h
    · have heq : (maybeFireTimeOfDay loc n now last).1 = entry := congrArg (·.2.1) (Option.some.inj h)
      exact heq ▸ htimeOfDay
    · split at h
      · have heq : (maybeFireCron loc n now last).1 = entry := congrArg (·.2.1) (Option.some.inj h)
        exact heq ▸ hcron
      · cases h

private theorem firedBy_tick {loc : Location} {graphs : List Graph} {now : Int}
    {lastFired : LastFired} (h : FiredBy now lastFired) :
    FiredBy now (evaluateTimeTriggers loc graphs now lastFired).lastFired := by
  refine List.foldlRecOn (motive := fun s : Fired => FiredBy now s.lastFired) _ _ h fun s hs gn _ => ?_
  unfold tickNode
  dsimp only
  cases hturn : timeTurn loc gn.2 now (s.lastFired.lookup (triggerKey gn.1 gn.2)) with
  | none => exact hs
  | some turn =>
    obtain ⟨label, entry, fires⟩ := turn
    cases entry with
    | none => exact hs
    | some t =>
      refine hs.insert _ ?_
      rcases timeTurn_entry hturn with hlast | hnow
      · exact hs _ _ hlast.symm
      · cases hnow
        exact Int.le_refl _

private theorem firedBy_event {W : Type} {svc : Services W} {w : W} {graphs : List Graph}
    {serverID label : String} {wants : Node → Bool} {seedData : GoMap Value}
    {lastFired : LastFired} (h : FiredBy (svc.now w) lastFired) :
    FiredBy (svc.now w)
      (fireEventTriggers svc w graphs serverID wants seedData label lastFired).lastFired := by
  refine List.foldlRecOn (motive := fun s : Fired => FiredBy (svc.now w) s.lastFired) _ _ h
    fun s hs g _ => ?_
  refine List.foldlRecOn (motive := fun s : Fired => FiredBy (svc.now w) s.lastFired) _ _ hs
    fun s hs n _ => ?_
  have hallows : ∀ lf, cooldownAllows (svc.now w) (triggerKey g n) n.config s.lastFired = some lf →
      lf = s.lastFired.insert (triggerKey g n) (svc.now w) := by
    intro lf hlf
    unfold cooldownAllows at hlf
    split at hlf
    · split at hlf
      · cases hlf
      · exact (Option.some.inj hlf).symm
    · exact (Option.some.inj hlf).symm
  unfold fireNode
  split
  · split
    · exact hs
    · rename_i lf hlf
      rw [hallows lf hlf]
      exact hs.insert _ (Int.le_refl _)
  · exact hs

/-- In every reachable state no trigger fired in the future. -/
theorem TriggerReachable.firedBy {W : Type} {svc : Services W} {loc : Location}
    {s : TriggerState} (h : TriggerReachable svc loc s) : FiredBy s.now s.lastFired := by
  induction h with
  | start graphs now => exact fun _ _ h => by cases h
  | edit graphs _ ih => exact ih
  | later now hnow _ ih => exact fun key t ht => Int.le_trans (ih key t ht) hnow
  | tick _ ih => exact firedBy_tick ih
  | event hw serverID wants seedData label _ ih =>
    rw [← hw] at ih ⊢
    exact firedBy_event ih

/-! ## The ticker on the minute boundaries -/

/-- The minute boundaries after an instant. -/
def boundaryAfter (now : Int) (i : Nat) : Int := Time.nextBoundary now + i * minute

/-- The bookkeeping before the ticker evaluates the boundary with index `i`. -/
def tickerAt (loc : Location) (graphs : List Graph) (now : Int) (lastFired : LastFired) :
    Nat → LastFired
  | 0 => lastFired
  | i + 1 => (evaluateTimeTriggers loc graphs (boundaryAfter now i)
      (tickerAt loc graphs now lastFired i)).lastFired

/-- The boundaries at which the ticker launches the node. -/
def tickerFirings (loc : Location) (graphs : List Graph) (g : Graph) (n : Node) (now : Int)
    (lastFired : LastFired) : Set Nat :=
  {i | launchesOf g n (evaluateTimeTriggers loc graphs (boundaryAfter now i)
    (tickerAt loc graphs now lastFired i)).launches ≠ []}

theorem isBoundary_boundaryAfter (now : Int) (i : Nat) : Time.IsBoundary (boundaryAfter now i) :=
  Time.isBoundary_add_mul (Time.isBoundary_nextBoundary now) i

theorem boundaryAfter_le_iff (now : Int) (i j : Nat) :
    boundaryAfter now i ≤ boundaryAfter now j ↔ i ≤ j := by
  simp only [boundaryAfter, minute]
  omega

theorem lt_boundaryAfter (now : Int) (i : Nat) : now < boundaryAfter now i := by
  have h := Time.lt_nextBoundary now
  simp only [boundaryAfter, minute]
  omega

theorem exists_boundaryAfter {now b : Int} (hb : Time.IsBoundary b) (h : now < b) :
    ∃ i, b = boundaryAfter now i :=
  Time.exists_nextBoundary_add hb h

/-- The boundaries after the next one are those after it. -/
theorem boundaryAfter_succ (now : Int) (i : Nat) :
    boundaryAfter now (i + 1) = boundaryAfter (Time.nextBoundary now) i := by
  simp only [boundaryAfter, Time.nextBoundary, Time.truncateMinute, minute]
  omega

/-- Some boundary is not before a given instant. -/
theorem exists_le_boundaryAfter (now t : Int) : ∃ i, t ≤ boundaryAfter now i := by
  refine ⟨(t - now).toNat, ?_⟩
  have h := lt_boundaryAfter now 0
  simp only [boundaryAfter, minute] at *
  omega

private theorem exists_isLeast {p : Nat → Prop} (h : ∃ i, p i) : ∃ k, IsLeast {i | p i} k := by
  classical
  exact ⟨Nat.find h, Nat.find_spec h, fun j hj => Nat.find_min' h hj⟩

/-- The first boundary not before an instant. -/
theorem exists_isLeast_boundary (now t : Int) : ∃ k, IsLeast {i | t ≤ boundaryAfter now i} k :=
  exists_isLeast (exists_le_boundaryAfter now t)

section

variable {loc : Location} {graphs : List Graph} {g : Graph} {n : Node} {now : Int}
  {lastFired : LastFired}

/-- The ticker after its first boundary. -/
theorem tickerAt_succ (i : Nat) :
    tickerAt loc graphs now lastFired (i + 1) =
      tickerAt loc graphs (Time.nextBoundary now)
        (evaluateTimeTriggers loc graphs (boundaryAfter now 0) lastFired).lastFired i := by
  induction i with
  | zero => rfl
  | succ i ih =>
    rw [tickerAt, ih, boundaryAfter_succ]
    rfl

theorem succ_mem_tickerFirings (i : Nat) :
    i + 1 ∈ tickerFirings loc graphs g n now lastFired ↔
      i ∈ tickerFirings loc graphs g n (Time.nextBoundary now)
        (evaluateTimeTriggers loc graphs (boundaryAfter now 0) lastFired).lastFired := by
  rw [tickerFirings, Set.mem_ofPred_eq, tickerAt_succ, boundaryAfter_succ]
  rfl

variable (loc now lastFired) in
/-- A node whose turns are those of a debounce, as long as its entry keeps a property, fires
where the debounce does. -/
theorem tickerFirings_eq_firings (due : Int → Bool) (ready : Int → Int → Bool) (label : String)
    {P : Option Int → Prop} (howner : SoleOwner graphs g n)
    (hturn : ∀ t last, P last → timeTurn loc n t last =
      some (label, Debounce.after due ready last t, Debounce.firesAt due ready last t))
    (hkeep : ∀ t last, P last → P (Debounce.after due ready last t))
    (hstart : P (lastFired.lookup (triggerKey g n))) :
    tickerFirings loc graphs g n now lastFired =
      Debounce.firings due ready (lastFired.lookup (triggerKey g n)) (boundaryAfter now) := by
  have hentry : ∀ i, P ((tickerAt loc graphs now lastFired i).lookup (triggerKey g n)) ∧
      (tickerAt loc graphs now lastFired i).lookup (triggerKey g n) =
        Debounce.lastBefore due ready (lastFired.lookup (triggerKey g n)) (boundaryAfter now) i := by
    intro i
    induction i with
    | zero => exact ⟨hstart, rfl⟩
    | succ i ih =>
      obtain ⟨hp, heq⟩ := ih
      have hnext := (evaluateTimeTriggers_turn howner (hturn (boundaryAfter now i) _ hp)).1
      rw [Debounce.after_or] at hnext
      rw [tickerAt, Debounce.lastBefore, hnext, ← heq]
      exact ⟨hkeep _ _ hp, rfl⟩
  ext i
  obtain ⟨hp, heq⟩ := hentry i
  rw [tickerFirings, Set.mem_ofPred_eq, Debounce.firings, Set.mem_ofPred_eq,
    (evaluateTimeTriggers_turn howner (hturn (boundaryAfter now i) _ hp)).2, heq]
  simp

end

/-- The first boundary after now with a property, by its index. -/
theorem isLeast_boundary_iff {now b : Int} {p : Int → Prop} :
    IsLeast {b | Time.IsBoundary b ∧ now < b ∧ p b} b ↔
      ∃ i, b = boundaryAfter now i ∧ IsLeast {i | p (boundaryAfter now i)} i := by
  constructor
  · rintro ⟨⟨hb, hlt, hp⟩, hleast⟩
    obtain ⟨i, rfl⟩ := exists_boundaryAfter hb hlt
    refine ⟨i, rfl, hp, fun j hj => ?_⟩
    exact (boundaryAfter_le_iff now i j).1
      (hleast ⟨isBoundary_boundaryAfter now j, lt_boundaryAfter now j, hj⟩)
  · rintro ⟨i, rfl, hp, hleast⟩
    refine ⟨⟨isBoundary_boundaryAfter now i, lt_boundaryAfter now i, hp⟩, ?_⟩
    rintro b ⟨hb, hlt, hpb⟩
    obtain ⟨j, rfl⟩ := exists_boundaryAfter hb hlt
    exact (boundaryAfter_le_iff now i j).2 (hleast hpb)

/-! ## When the prediction is right -/

/-- The node fires for the first time at the first boundary not before its displayed next
run, and never if none is displayed. -/
def PredictionHolds (loc : Location) (s : TriggerState) (g : Graph) (n : Node) : Prop :=
  match nextFireForNode loc s.lastFired g n s.now with
  | some t => ∃ k, IsLeast {i | t ≤ boundaryAfter s.now i} k ∧
      IsLeast (tickerFirings loc s.graphs g n s.now s.lastFired) k
  | none => tickerFirings loc s.graphs g n s.now s.lastFired = ∅

/-- The interval counts from a recorded instant, or it is positive and no boundary lies
between its end counted from now and its end counted from the next boundary. -/
def IntervalOnTime (n : Node) (now : Int) (last : Option Int) : Prop :=
  last.isSome = true ∨ 0 < interval n ∧ ∀ b, Time.IsBoundary b → now + interval n ≤ b →
    Time.nextBoundary now + interval n ≤ b

/-- The wall clock shows a time of day. -/
def showsTime (loc : Location) (h m t : Int) : Bool :=
  decide (Time.hour loc t = h ∧ Time.minuteOfHour loc t = m)

def anotherDay (loc : Location) (last t : Int) : Bool :=
  decide (Time.localDay loc last ≠ Time.localDay loc t)

/-- The first boundary after now from an instant on. -/
def IsFirstBoundary (now from_ b : Int) : Prop :=
  IsLeast {b | Time.IsBoundary b ∧ now < b ∧ from_ ≤ b} b

/-- The boundary a time of day is expected at, today's or the one 24 hours later, shows that
time on a day without a firing, and the boundaries before it that show the time do so on the
day of the last firing. -/
def TimeOfDayOnTime (loc : Location) (h m now : Int) (last : Option Int) : Prop :=
  let today := Time.date loc (Time.year loc now) (Time.month loc now) (Time.dayOfMonth loc now) h m
  ∃ b, IsFirstBoundary now (if now < today then today else today + day) b ∧
    showsTime loc h m b = true ∧ (∀ l, last = some l → anotherDay loc l b = true) ∧
    ∀ b', Time.IsBoundary b' → now < b' → b' < b → showsTime loc h m b' = true →
      ∃ l, last = some l ∧ anotherDay loc l b' = false

/-- The next match of the expression lies within the scanned window, a full minute after the
last firing. -/
def CronOnTime (loc : Location) (n : Node) (now : Int) (last : Option Int) : Prop :=
  ∀ b, IsLeast {b | Time.IsBoundary b ∧ now < b ∧ cronMatches loc (cronExpr n) b = true} b →
    b < Time.nextBoundary now + cronScanWindow * minute ∧ ∀ l, last = some l → l + minute ≤ b

/-! ### Cron -/

theorem cronMatches_of_trimSpace {expr : String} (h : trimSpace expr = "")
    (loc : Location) (t : Int) : cronMatches loc expr t = false := by
  rw [cronMatches, fields_of_trimSpace h]

section

variable {loc : Location} {s : TriggerState} {g : Graph} {n : Node}

private theorem firings_cron (htype : n.type = "trigger.cron") (howner : SoleOwner s.graphs g n) :
    tickerFirings loc s.graphs g n s.now s.lastFired =
      Debounce.firings (cronMatches loc (cronExpr n)) minuteElapsed
        (s.lastFired.lookup (triggerKey g n)) (boundaryAfter s.now) := by
  refine tickerFirings_eq_firings loc s.now s.lastFired _ _ "time:cron" (P := fun _ => True) howner ?_
    (fun _ _ _ => trivial) trivial
  intro t last _
  simp [timeTurn, htype, maybeFireCron_eq]

/-- What the scan of the boundaries finds is the first match. -/
theorem isLeast_of_find? {p : Nat → Bool} {window i : Nat}
    (h : (List.range window).find? p = some i) : i < window ∧ IsLeast {i | p i = true} i := by
  obtain ⟨hmatch, hrange, hbefore⟩ := List.find?_range_eq_some.1 h
  refine ⟨List.mem_range.1 hrange, hmatch, fun j hj => ?_⟩
  by_contra hlt
  have hnot := hbefore j (by omega)
  rw [Bool.not_eq_true'] at hnot
  exact absurd hj (by simp [hnot])

section

variable {p : Int → Bool} {now : Int} {last : Option Int} {window : Nat}

/-- Without a match in the window nothing fires exactly when there is none behind it either:
a match that far from now finds the last firing long past. -/
private theorem firings_eq_empty_iff_of_none (hpos : 0 < window) (hlast : ∀ l ∈ last, l ≤ now)
    (hnone : ∀ i < window, p (boundaryAfter now i) = false) :
    Debounce.firings p minuteElapsed last (boundaryAfter now) = ∅ ↔
      ∀ i, IsLeast {i | p (boundaryAfter now i) = true} i →
        boundaryAfter now i < Time.nextBoundary now + window * minute ∧
          ∀ l, last = some l → l + minute ≤ boundaryAfter now i := by
  rw [Debounce.firings_eq_empty_iff]
  constructor
  · rintro hempty i ⟨hmatch, -⟩
    rw [Set.mem_ofPred_eq] at hmatch
    have hfar : window ≤ i := by
      by_contra hlt
      rw [hnone i (by omega)] at hmatch
      cases hmatch
    refine absurd (hempty i) ?_
    rw [Debounce.firesAt, hmatch, Bool.true_and, Bool.not_eq_false, Option.all_eq_true]
    intro l hl
    have hle := hlast l hl
    have hnb := Time.lt_nextBoundary now
    apply decide_eq_true
    simp only [boundaryAfter, minute] at *
    omega
  · intro hwindow i
    rw [Debounce.firesAt]
    cases hmatch : p (boundaryAfter now i) with
    | false => rfl
    | true =>
      obtain ⟨k, hk⟩ := exists_isLeast (p := fun i => p (boundaryAfter now i) = true) ⟨i, hmatch⟩
      have hnear := (hwindow k hk).1
      have hin := hnone k (by
        simp only [boundaryAfter, minute] at hnear
        omega)
      exact absurd hk.1 (by simp [hin])

/-- The first match in the window is the first firing exactly when it lies a full minute after
the last one. -/
private theorem isLeast_firings_iff_of_first {i : Nat} (hlt : i < window)
    (hleast : IsLeast {i | p (boundaryAfter now i) = true} i) :
    IsLeast (Debounce.firings p minuteElapsed last (boundaryAfter now)) i ↔
      ∀ j, IsLeast {i | p (boundaryAfter now i) = true} j →
        boundaryAfter now j < Time.nextBoundary now + window * minute ∧
          ∀ l, last = some l → l + minute ≤ boundaryAfter now j := by
  rw [Debounce.isLeast_firings_iff]
  constructor
  · rintro ⟨hfires, -⟩ j hj
    obtain rfl : j = i := hj.unique hleast
    rw [Set.mem_ofPred_eq, Debounce.firesAt, Bool.and_eq_true, Option.all_eq_true] at hfires
    refine ⟨?_, fun l hl => of_decide_eq_true (hfires.2 l hl)⟩
    simp only [boundaryAfter, minute]
    omega
  · intro hcond
    obtain ⟨-, hlast⟩ := hcond i hleast
    refine ⟨?_, fun j hj => hleast.2 ?_⟩
    · rw [Set.mem_ofPred_eq, Debounce.firesAt, Bool.and_eq_true, Option.all_eq_true]
      exact ⟨hleast.1, fun l hl => decide_eq_true (hlast l hl)⟩
    · rw [Set.mem_ofPred_eq, Debounce.firesAt, Bool.and_eq_true] at hj
      exact hj.1

end

private theorem predictionHolds_cron (htype : n.type = "trigger.cron")
    (howner : SoleOwner s.graphs g n) (hfired : FiredBy s.now s.lastFired) :
    PredictionHolds loc s g n ↔
      CronOnTime loc n s.now (s.lastFired.lookup (triggerKey g n)) := by
  have hnext : nextFireForNode loc s.lastFired g n s.now = nextCron loc n s.now := by
    simp [nextFireForNode, htype]
  have hcond : CronOnTime loc n s.now (s.lastFired.lookup (triggerKey g n)) ↔
      ∀ i, IsLeast {i | cronMatches loc (cronExpr n) (boundaryAfter s.now i) = true} i →
        boundaryAfter s.now i < Time.nextBoundary s.now + cronScanWindow * minute ∧
          ∀ l, s.lastFired.lookup (triggerKey g n) = some l →
            l + minute ≤ boundaryAfter s.now i := by
    simp only [CronOnTime, isLeast_boundary_iff]
    exact ⟨fun h i hi => h _ ⟨i, rfl, hi⟩, fun h b ⟨i, hb, hi⟩ => hb ▸ h i hi⟩
  unfold PredictionHolds
  rw [hnext, firings_cron htype howner, hcond]
  unfold nextCron
  rw [← cronExpr]
  dsimp only
  have hpos : 0 < cronScanWindow := Nat.mul_pos (by decide) (by decide)
  generalize cronScanWindow = window at hpos ⊢
  by_cases hblank : trimSpace (cronExpr n) = ""
  · rw [if_pos hblank]
    have hnone : ∀ i, cronMatches loc (cronExpr n) (boundaryAfter s.now i) = false := fun i =>
      cronMatches_of_trimSpace hblank loc _
    exact firings_eq_empty_iff_of_none hpos (fun l hl => hfired _ l hl) fun i _ => hnone i
  · rw [if_neg hblank]
    cases hfind : (List.range window).find? fun i : Nat =>
        cronMatches loc (cronExpr n) (Time.nextBoundary s.now + i * minute) with
    | none =>
      refine firings_eq_empty_iff_of_none hpos (fun l hl => hfired _ l hl) fun i hi => ?_
      exact Bool.eq_false_iff.2 (List.find?_eq_none.1 hfind i (List.mem_range.2 hi))
    | some i =>
      obtain ⟨hlt, hleast⟩ := isLeast_of_find? hfind
      rw [← isLeast_firings_iff_of_first hlt hleast]
      show (∃ k, IsLeast {j | boundaryAfter s.now i ≤ boundaryAfter s.now j} k ∧
        IsLeast (Debounce.firings _ _ _ _) k) ↔ _
      simp only [boundaryAfter_le_iff]
      constructor
      · rintro ⟨k, hk, hfirst⟩
        obtain rfl : k = i := hk.unique isLeast_Ici
        exact hfirst
      · exact fun hfirst => ⟨i, isLeast_Ici, hfirst⟩

/-! ### Intervals -/

theorem interval_bounds (n : Node) : minInt64 ≤ interval n ∧ interval n ≤ maxInt64 := by
  simp only [interval, wrapInt64, minInt64, maxInt64]
  omega

/-- The debounce of an interval node. -/
def intervalElapsed (n : Node) (last now : Int) : Bool := decide (¬ Time.sub now last < interval n)

private theorem intervalElapsed_iff {n : Node} {last now : Int} (h : last ≤ now) :
    intervalElapsed n last now = true ↔ last + interval n ≤ now := by
  have hb := interval_bounds n
  rw [intervalElapsed, decide_eq_true_eq]
  simp only [Time.sub, minInt64, maxInt64] at *
  omega

variable (loc) in
private theorem firings_interval {graphs : List Graph} {now l : Int} {lastFired : LastFired}
    (htype : n.type = "trigger.interval") (howner : SoleOwner graphs g n)
    (hlast : lastFired.lookup (triggerKey g n) = some l) (hl : l ≤ now) :
    ∀ k, IsLeast (tickerFirings loc graphs g n now lastFired) k ↔
      IsLeast {i | l + interval n ≤ boundaryAfter now i} k := by
  have hfirings := tickerFirings_eq_firings loc now lastFired (fun _ => true)
    (intervalElapsed n) "time:interval" (P := fun last => last.isSome = true) howner ?_ ?_ ?_
  · intro k
    rw [hfirings, Debounce.isLeast_firings_iff, hlast]
    have hset : {i | Debounce.firesAt (fun _ => true) (intervalElapsed n) (some l)
        (boundaryAfter now i) = true} = {i | l + interval n ≤ boundaryAfter now i} := by
      ext i
      have hlt := lt_boundaryAfter now i
      rw [Set.mem_ofPred_eq, Set.mem_ofPred_eq, Debounce.firesAt, Bool.true_and, Option.all_some]
      exact intervalElapsed_iff (by omega)
    rw [hset]
  · intro t last hsome
    obtain ⟨u, rfl⟩ := Option.isSome_iff_exists.1 hsome
    simp only [timeTurn, htype, if_true, maybeFireInterval, Debounce.after, Debounce.firesAt,
      Bool.true_and, Option.all_some, intervalElapsed, decide_eq_true_eq]
    by_cases h : Time.sub t u < interval n
    · simp [h]
    · simp [h]
  · intro t last hsome
    unfold Debounce.after
    split
    · rfl
    · exact hsome
  · rw [hlast]
    rfl

/-- An interval without an entry is armed by the first boundary. -/
private theorem firings_unarmed {graphs : List Graph} {now : Int} {lastFired : LastFired}
    (htype : n.type = "trigger.interval") (howner : SoleOwner graphs g n)
    (hlast : lastFired.lookup (triggerKey g n) = none) (k : Nat) :
    IsLeast (tickerFirings loc graphs g n now lastFired) k ↔
      ∃ j, k = j + 1 ∧
        IsLeast {j | Time.nextBoundary now + interval n ≤ boundaryAfter now (j + 1)} j := by
  have hzero : boundaryAfter now 0 = Time.nextBoundary now := by simp [boundaryAfter]
  have hturn : timeTurn loc n (boundaryAfter now 0) (lastFired.lookup (triggerKey g n)) =
      some ("time:interval", some (Time.nextBoundary now), false) := by
    simp [timeTurn, htype, hlast, maybeFireInterval, hzero]
  obtain ⟨hentry, hlaunches⟩ := evaluateTimeTriggers_turn howner hturn
  have hfirst : 0 ∉ tickerFirings loc graphs g n now lastFired := by
    rw [tickerFirings, Set.mem_ofPred_eq]
    exact not_not_intro hlaunches
  have hrest := firings_interval loc htype howner hentry (Int.le_refl _)
  simp only [← boundaryAfter_succ] at hrest
  constructor
  · rintro ⟨hmem, hleast⟩
    obtain _ | j := k
    · exact absurd hmem hfirst
    · refine ⟨j, rfl, (hrest j).1 ⟨(succ_mem_tickerFirings j).1 hmem, fun i hi => ?_⟩⟩
      exact Nat.succ_le_succ_iff.1 (hleast ((succ_mem_tickerFirings i).2 hi))
  · rintro ⟨j, rfl, hj⟩
    obtain ⟨hmem, hleast⟩ := (hrest j).2 hj
    refine ⟨(succ_mem_tickerFirings j).2 hmem, fun i hi => ?_⟩
    obtain _ | i := i
    · exact absurd hi hfirst
    · exact Nat.succ_le_succ (hleast ((succ_mem_tickerFirings i).1 hi))

private theorem predictionHolds_interval (htype : n.type = "trigger.interval")
    (howner : SoleOwner s.graphs g n) (hfired : FiredBy s.now s.lastFired) :
    PredictionHolds loc s g n ↔
      IntervalOnTime n s.now (s.lastFired.lookup (triggerKey g n)) := by
  have hnext : nextFireForNode loc s.lastFired g n s.now =
      some (nextInterval n s.now (s.lastFired.lookup (triggerKey g n))) := by
    simp [nextFireForNode, htype]
  unfold PredictionHolds
  rw [hnext]
  cases hlast : s.lastFired.lookup (triggerKey g n) with
  | some l =>
    have hl := hfired _ _ hlast
    refine iff_of_true ?_ (.inl rfl)
    obtain ⟨k, hk⟩ := exists_isLeast_boundary s.now (l + interval n)
    exact ⟨k, hk, (firings_interval loc htype howner hlast hl k).2 hk⟩
  | none =>
    simp only [nextInterval, firings_unarmed htype howner hlast]
    have hnow := Time.lt_nextBoundary s.now
    have hzero : boundaryAfter s.now 0 = Time.nextBoundary s.now := by simp [boundaryAfter]
    constructor
    · rintro ⟨_, ⟨hk, hleast⟩, j, rfl, hj, -⟩
      refine .inr ⟨?_, fun b hb hend => ?_⟩
      · by_contra hneg
        have h0 := hleast (show s.now + interval n ≤ boundaryAfter s.now 0 by omega)
        omega
      · by_cases hafter : s.now < b
        · obtain ⟨i, rfl⟩ := exists_boundaryAfter hb hafter
          have hle := (boundaryAfter_le_iff s.now (j + 1) i).2 (hleast hend)
          exact Int.le_trans hj hle
        · have h0 := hleast (show s.now + interval n ≤ boundaryAfter s.now 0 by omega)
          omega
    · rintro (hsome | ⟨hpos, hgap⟩)
      · cases hsome
      · obtain ⟨k, hk, hleast⟩ := exists_isLeast_boundary s.now (s.now + interval n)
        have hend := hgap _ (isBoundary_boundaryAfter s.now k) hk
        obtain _ | j := k
        · omega
        · refine ⟨j + 1, ⟨hk, hleast⟩, j, rfl, hend, fun i hi => ?_⟩
          have hi' : Time.nextBoundary s.now + interval n ≤ boundaryAfter s.now (i + 1) := hi
          exact Nat.succ_le_succ_iff.1
            (hleast (show s.now + interval n ≤ boundaryAfter s.now (i + 1) by omega))

/-! ### Times of day -/

/-- A time-of-day node's turn is a debounced firing. -/
theorem maybeFireTimeOfDay_eq {h m : Int} (hparse : parseTimeOfDay n = some (h, m)) (now : Int)
    (last : Option Int) : maybeFireTimeOfDay loc n now last =
      (Debounce.after (showsTime loc h m) (anotherDay loc) last now,
        Debounce.firesAt (showsTime loc h m) (anotherDay loc) last now) := by
  unfold maybeFireTimeOfDay Debounce.after Debounce.firesAt
  rw [hparse]
  dsimp only
  by_cases hshows : Time.hour loc now = h ∧ Time.minuteOfHour loc now = m
  · rw [if_neg (by simp [hshows]), showsTime, decide_eq_true hshows]
    cases last with
    | none => rfl
    | some l =>
      simp only [Time.sameDay_iff, Bool.true_and, Option.all_some, anotherDay, decide_not,
        Bool.not_eq_true', decide_eq_false_iff_not]
      by_cases hday : Time.localDay loc l = Time.localDay loc now
      · simp [hday]
      · simp [hday]
  · rw [if_pos (by rwa [← not_and_or]), showsTime, decide_eq_false hshows]
    rfl

private theorem predictionHolds_timeOfDay {h m : Int} (htype : n.type = "trigger.timeOfDay")
    (hparse : parseTimeOfDay n = some (h, m)) (howner : SoleOwner s.graphs g n) :
    PredictionHolds loc s g n ↔
      TimeOfDayOnTime loc h m s.now (s.lastFired.lookup (triggerKey g n)) := by
  have hfirings := tickerFirings_eq_firings loc s.now s.lastFired (showsTime loc h m)
    (anotherDay loc) "time:timeOfDay" (P := fun _ => True) howner
    (fun t last _ => by simp [timeTurn, htype, maybeFireTimeOfDay_eq hparse])
    (fun _ _ _ => trivial) trivial
  have hnext : nextFireForNode loc s.lastFired g n s.now = nextTimeOfDay loc n s.now := by
    simp [nextFireForNode, htype]
  have hlast : ∀ t, (s.lastFired.lookup (triggerKey g n)).all (fun l => anotherDay loc l t) = true ↔
      ∀ l, s.lastFired.lookup (triggerKey g n) = some l → anotherDay loc l t = true := fun t =>
    Option.all_eq_true ..
  unfold PredictionHolds TimeOfDayOnTime IsFirstBoundary
  rw [hnext, hfirings]
  simp only [nextTimeOfDay, hparse, Option.bind_eq_bind, Option.bind_some, Option.pure_def,
    Debounce.isLeast_firings_iff, isLeast_boundary_iff]
  constructor
  · rintro ⟨k, hk, hmem, hleast⟩
    rw [Set.mem_ofPred_eq, Debounce.firesAt, Bool.and_eq_true, hlast] at hmem
    refine ⟨_, ⟨k, rfl, hk⟩, hmem.1, hmem.2, fun b hb hnow hlt hshows => ?_⟩
    obtain ⟨i, rfl⟩ := exists_boundaryAfter hb hnow
    by_contra hnone
    have hfires : Debounce.firesAt (showsTime loc h m) (anotherDay loc)
        (s.lastFired.lookup (triggerKey g n)) (boundaryAfter s.now i) = true := by
      rw [Debounce.firesAt, Bool.and_eq_true, hlast]
      refine ⟨hshows, fun l hl => ?_⟩
      by_contra hsame
      exact hnone ⟨l, hl, Bool.not_eq_true _ ▸ hsame⟩
    have hle := (boundaryAfter_le_iff s.now k i).2 (hleast hfires)
    omega
  · rintro ⟨b, ⟨k, rfl, hk⟩, hshows, hday, hbefore⟩
    refine ⟨k, hk, ?_, fun i hi => ?_⟩
    · rw [Set.mem_ofPred_eq, Debounce.firesAt, Bool.and_eq_true, hlast]
      exact ⟨hshows, hday⟩
    · rw [Set.mem_ofPred_eq, Debounce.firesAt, Bool.and_eq_true, hlast] at hi
      by_contra hlt
      have hless : boundaryAfter s.now i < boundaryAfter s.now k :=
        lt_of_not_ge fun hge => hlt ((boundaryAfter_le_iff s.now k i).1 hge)
      obtain ⟨l, hl, hsame⟩ := hbefore _ (isBoundary_boundaryAfter s.now i)
        (lt_boundaryAfter s.now i) hless hi.1
      rw [hi.2 l hl] at hsame
      cases hsame

/-- The day an instant falls on, counted from the epoch. -/
def dayIndex (loc : Location) (t : Int) : Int := Time.wallSeconds loc t / 86400

/-- The instant at which the wall clock of a zone `k` minutes from UTC shows a time on a day. -/
def instantOn (k h m d : Int) : Int := (d * 86400 + h * 3600 + m * 60 - 60 * k) * second

private theorem date_fixed (k h m now : Int) :
    Time.date (.fixed (60 * k)) (Time.year (.fixed (60 * k)) now)
        (Time.month (.fixed (60 * k)) now) (Time.dayOfMonth (.fixed (60 * k)) now) h m =
      instantOn k h m (dayIndex (.fixed (60 * k)) now) := by
  unfold Time.date Time.year Time.month Time.dayOfMonth
  rw [dayOfDate_of_day]
  simp only [Location.fixed, Time.localDay, add_sub_cancel_right, ite_self]
  rfl

section

variable {k h m : Int}

private theorem showsTime_iff (loc : Location) (h m t : Int) :
    showsTime loc h m t = true ↔ Time.hour loc t = h ∧ Time.minuteOfHour loc t = m :=
  decide_eq_true_iff

private theorem instantOn_spec (hh : 0 ≤ h ∧ h ≤ 23) (hm : 0 ≤ m ∧ m ≤ 59) (d : Int) :
    Time.IsBoundary (instantOn k h m d) ∧ dayIndex (.fixed (60 * k)) (instantOn k h m d) = d ∧
      showsTime (.fixed (60 * k)) h m (instantOn k h m d) = true := by
  rw [showsTime_iff]
  simp only [Time.IsBoundary, dayIndex, Time.hour, Time.minuteOfHour, Time.wallSeconds,
    Time.unix, Location.fixed, instantOn, second, minute]
  omega

private theorem eq_instantOn {b : Int} (hb : Time.IsBoundary b)
    (hshows : showsTime (.fixed (60 * k)) h m b = true) :
    b = instantOn k h m (dayIndex (.fixed (60 * k)) b) := by
  rw [showsTime_iff] at hshows
  simp only [Time.IsBoundary, dayIndex, Time.hour, Time.minuteOfHour, Time.wallSeconds,
    Time.unix, Location.fixed, instantOn, second, minute] at *
  omega

private theorem instantOn_le_iff (d now : Int) (hm : 0 ≤ h * 3600 + m * 60 ∧
    h * 3600 + m * 60 < 86400) :
    instantOn k h m d ≤ now ↔ d < dayIndex (.fixed (60 * k)) now ∨
      d = dayIndex (.fixed (60 * k)) now ∧
        h * 3600 + m * 60 ≤ Time.wallSeconds (.fixed (60 * k)) now % 86400 := by
  simp only [instantOn, dayIndex, Time.wallSeconds, Time.unix, Location.fixed, second]
  omega

private theorem instantOn_lt_iff (d e : Int) : instantOn k h m d < instantOn k h m e ↔ d < e := by
  simp only [instantOn, second]
  omega

private theorem anotherDay_iff (loc : Location) (t u : Int) :
    anotherDay loc t u = true ↔ dayIndex loc t ≠ dayIndex loc u := by
  rw [anotherDay, decide_eq_true_eq, Time.localDay, Time.localDay, dayIndex, dayIndex]
  omega

/-- In a zone that is whole minutes from UTC, the prediction of a time of day is right exactly
when that time has passed today or the trigger has not fired today. -/
theorem timeOfDayOnTime_fixed {now : Int} {last : Option Int} (hh : 0 ≤ h ∧ h ≤ 23)
    (hm : 0 ≤ m ∧ m ≤ 59) (hlast : ∀ l, last = some l → l ≤ now) :
    TimeOfDayOnTime (.fixed (60 * k)) h m now last ↔
      h * 3600 + m * 60 ≤ Time.wallSeconds (.fixed (60 * k)) now % 86400 ∨
        ∀ l, last = some l → anotherDay (.fixed (60 * k)) l now = true := by
  have hle := fun d t => instantOn_le_iff (k := k) (h := h) (m := m) d t (by omega)
  -- the day of the prediction
  obtain ⟨d, hd, hnext, hpast, hday⟩ : ∃ d, (if now < instantOn k h m (dayIndex (.fixed (60 * k)) now)
      then instantOn k h m (dayIndex (.fixed (60 * k)) now)
      else instantOn k h m (dayIndex (.fixed (60 * k)) now) + day) = instantOn k h m d ∧
      now < instantOn k h m d ∧ instantOn k h m (d - 1) ≤ now ∧
      (h * 3600 + m * 60 ≤ Time.wallSeconds (.fixed (60 * k)) now % 86400 ∧
          d = dayIndex (.fixed (60 * k)) now + 1 ∨
        ¬ h * 3600 + m * 60 ≤ Time.wallSeconds (.fixed (60 * k)) now % 86400 ∧
          d = dayIndex (.fixed (60 * k)) now) := by
    by_cases hpassed : h * 3600 + m * 60 ≤ Time.wallSeconds (.fixed (60 * k)) now % 86400
    · have htoday : ¬ now < instantOn k h m (dayIndex (.fixed (60 * k)) now) :=
        not_lt.2 ((hle _ _).2 (.inr ⟨rfl, hpassed⟩))
      refine ⟨dayIndex (.fixed (60 * k)) now + 1, ?_, ?_, ?_, .inl ⟨hpassed, rfl⟩⟩
      · rw [if_neg htoday]
        simp only [instantOn, second, day]
        omega
      · rw [← not_le, hle]
        omega
      · rw [add_sub_cancel_right]
        omega
    · have htoday : now < instantOn k h m (dayIndex (.fixed (60 * k)) now) := by
        rw [← not_le, hle]
        omega
      refine ⟨dayIndex (.fixed (60 * k)) now, if_pos htoday, htoday, ?_, .inr ⟨hpassed, rfl⟩⟩
      rw [hle]
      omega
  obtain ⟨hboundary, hindex, hshows⟩ := instantOn_spec (k := k) hh hm d
  have hfirst : IsFirstBoundary now (instantOn k h m d) (instantOn k h m d) :=
    ⟨⟨hboundary, hnext, Int.le_refl _⟩, fun b hb => hb.2.2⟩
  have hcond : TimeOfDayOnTime (.fixed (60 * k)) h m now last ↔
      ∀ l, last = some l → anotherDay (.fixed (60 * k)) l (instantOn k h m d) = true := by
    unfold TimeOfDayOnTime
    rw [date_fixed]
    dsimp only
    rw [hd]
    constructor
    · rintro ⟨b, hb, -, hother, -⟩
      rwa [hb.unique hfirst] at hother
    · intro hother
      refine ⟨_, hfirst, hshows, hother, fun b hb hnow hlt hb' => ?_⟩
      -- between two days' instants the clock does not show the time
      rw [eq_instantOn hb hb', instantOn_lt_iff] at hlt
      rw [eq_instantOn hb hb'] at hnow
      have hmono := (instantOn_lt_iff (k := k) (h := h) (m := m) (d - 1) _).1
        (lt_of_le_of_lt hpast hnow)
      omega
  rw [hcond]
  simp only [anotherDay_iff, hindex]
  rcases hday with ⟨hpassed, rfl⟩ | ⟨hpassed, rfl⟩
  · refine iff_of_true (fun l hl => ?_) (.inl hpassed)
    have hll := hlast l hl
    simp only [dayIndex, Time.wallSeconds, Time.unix, Location.fixed, second]
    omega
  · exact (or_iff_right hpassed).symm

end

/-- A node whose turns change nothing never fires. -/
private theorem predictionHolds_of_idle
    (hnext : nextFireForNode loc s.lastFired g n s.now = none) (howner : SoleOwner s.graphs g n)
    (hturn : ∀ t last, timeTurn loc n t last = none ∨
      ∃ label, timeTurn loc n t last = some (label, last, false)) :
    PredictionHolds loc s g n := by
  unfold PredictionHolds
  rw [hnext]
  refine Set.eq_empty_iff_forall_notMem.2 fun i hi => ?_
  rw [tickerFirings, Set.mem_ofPred_eq] at hi
  rcases hturn (boundaryAfter s.now i) ((tickerAt loc s.graphs s.now s.lastFired i).lookup
    (triggerKey g n)) with hnone | ⟨label, hsome⟩
  · exact hi (launchesOf_eq_nil howner hnone)
  · exact hi (evaluateTimeTriggers_turn howner hsome).2

/-! ### Any trigger -/

/-- When the prediction for a node is right, by the kind of its trigger. -/
structure PredictionOnTime (loc : Location) (n : Node) (now : Int) (last : Option Int) : Prop where
  interval : n.type = "trigger.interval" → IntervalOnTime n now last
  timeOfDay : n.type = "trigger.timeOfDay" → ∀ h m, parseTimeOfDay n = some (h, m) →
    TimeOfDayOnTime loc h m now last
  cron : n.type = "trigger.cron" → CronOnTime loc n now last

end

/-- In every reachable state, the displayed next run of a node of an enabled graph is the real
one exactly when the condition for its kind of trigger holds. -/
theorem predictionHolds_iff {W : Type} {svc : Services W} {loc : Location} {s : TriggerState}
    {g : Graph} {n : Node} (hreach : TriggerReachable svc loc s)
    (howner : SoleOwner s.graphs g n) :
    PredictionHolds loc s g n ↔
      PredictionOnTime loc n s.now (s.lastFired.lookup (triggerKey g n)) := by
  have hfired := hreach.firedBy
  by_cases hinterval : n.type = "trigger.interval"
  · rw [predictionHolds_interval hinterval howner hfired]
    refine ⟨fun h => ⟨fun _ => h, ?_, ?_⟩, fun h => h.interval hinterval⟩
    · intro htype
      simp [hinterval] at htype
    · intro htype
      simp [hinterval] at htype
  · by_cases htod : n.type = "trigger.timeOfDay"
    · have honly : PredictionOnTime loc n s.now (s.lastFired.lookup (triggerKey g n)) ↔
          ∀ h m, parseTimeOfDay n = some (h, m) →
            TimeOfDayOnTime loc h m s.now (s.lastFired.lookup (triggerKey g n)) :=
        ⟨fun h => h.timeOfDay htod, fun h =>
          ⟨fun htype => absurd htype hinterval, fun _ => h, fun htype => by simp [htod] at htype⟩⟩
      rw [honly]
      cases hparse : parseTimeOfDay n with
      | none =>
        refine iff_of_true (predictionHolds_of_idle ?_ howner fun t last => .inr
          ⟨"time:timeOfDay", ?_⟩) (by simp)
        · simp [nextFireForNode, htod, nextTimeOfDay, hparse]
        · simp [timeTurn, htod, maybeFireTimeOfDay, hparse]
      | some hm =>
        obtain ⟨h, m⟩ := hm
        rw [predictionHolds_timeOfDay htod hparse howner]
        refine ⟨fun hcond h' m' heq => ?_, fun hcond => hcond h m rfl⟩
        cases heq
        exact hcond
    · by_cases hcron : n.type = "trigger.cron"
      · rw [predictionHolds_cron hcron howner hfired]
        exact ⟨fun h => ⟨fun htype => absurd htype hinterval, fun htype => absurd htype htod,
          fun _ => h⟩, fun h => h.cron hcron⟩
      · refine iff_of_true (predictionHolds_of_idle ?_ howner fun t last => .inl ?_)
          ⟨fun htype => absurd htype hinterval, fun htype => absurd htype htod,
            fun htype => absurd htype hcron⟩
        · simp [nextFireForNode, hinterval, htod, hcron]
        · simp [timeTurn, hinterval, htod, hcron]

/-! ## An edited time of day -/

/-- A graph that runs at a time of day. -/
def dailyNode (time : String) : Node :=
  ⟨"c", "trigger.timeOfDay", GoMap.ofList [("time", .str time)]⟩

def dailyGraph (time : String) : Graph where
  id := "g"
  name := "daily"
  serverID := "s1"
  enabled := true
  nodes := [dailyNode time]
  edges := []
  createdAt := 0
  updatedAt := 0

/-- The graph ran one minute past midnight and was then moved to three minutes past. -/
def editedState : TriggerState where
  graphs := [dailyGraph "00:03"]
  lastFired := (evaluateTimeTriggers (.fixed 0) [dailyGraph "00:01"] minute ∅).lastFired
  now := minute

private theorem reachable_editedState {W : Type} (svc : Services W) :
    TriggerReachable svc (.fixed 0) editedState :=
  .edit [dailyGraph "00:03"] (.tick (.start [dailyGraph "00:01"] minute))

private theorem soleOwner_editedState :
    SoleOwner editedState.graphs (dailyGraph "00:03") (dailyNode "00:03") :=
  ⟨[], [], rfl, fun _ h => absurd h List.not_mem_nil⟩

/-- After the edit the run displayed for today does not happen. -/
theorem not_predictionHolds_edited :
    TriggerReachable idleHost.toServices (.fixed 0) editedState ∧
      ¬ PredictionHolds (.fixed 0) editedState (dailyGraph "00:03") (dailyNode "00:03") := by
  refine ⟨reachable_editedState _, ?_⟩
  have hparse : parseTimeOfDay (dailyNode "00:03") = some (0, 3) := by decide +kernel
  have hlast : editedState.lastFired.lookup
      (triggerKey (dailyGraph "00:03") (dailyNode "00:03")) = some minute := by decide +kernel
  have hclock : ¬ (0 : Int) * 3600 + 3 * 60 ≤
      Time.wallSeconds (.fixed (60 * 0)) editedState.now % 86400 := by decide
  have hsame : ¬ anotherDay (.fixed (60 * 0)) minute editedState.now = true := by decide
  rw [predictionHolds_timeOfDay rfl hparse soleOwner_editedState, hlast]
  intro hcond
  rcases (timeOfDayOnTime_fixed (k := 0) (by decide) (by decide) (by simp [editedState])).1 hcond
    with hpassed | hother
  · exact hclock hpassed
  · exact hsame (hother _ rfl)

/-- The condition at that state. -/
theorem predictionHolds_iff_edited :
    PredictionHolds (.fixed 0) editedState (dailyGraph "00:03") (dailyNode "00:03") ↔
      PredictionOnTime (.fixed 0) (dailyNode "00:03") editedState.now
        (editedState.lastFired.lookup
          (triggerKey (dailyGraph "00:03") (dailyNode "00:03"))) :=
  predictionHolds_iff (reachable_editedState idleHost.toServices) soleOwner_editedState

end Konnekt.Scheduler
