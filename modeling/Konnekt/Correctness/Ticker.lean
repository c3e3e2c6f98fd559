import Konnekt.Run.Debounce
import Konnekt.Scheduler.Triggers

/-!
# The ticker and its debounce

A node whose key no other node shares takes its turns alone: what a tick does with
its entry and which runs it launches for it depend on that entry only. For a cron
node the turn is a debounced firing that compares elapsed time, so a sequence of
ticks fires at exactly the matching ones when these are a full minute apart.
-/

namespace Konnekt.Scheduler

open Go

/-! ## Keys -/

/-- The node of an enabled graph whose key belongs to no other enabled node. -/
def SoleOwner (graphs : List Graph) (g : Graph) (n : Node) : Prop :=
  ∃ pre post, enabledNodes graphs = pre ++ (g, n) :: post ∧
    ∀ gn ∈ pre ++ post, triggerKey gn.1 gn.2 ≠ triggerKey g n

/-- A key names its graph and its node when graph ids have no colon. -/
theorem triggerKey_inj {g g' : Graph} {n n' : Node} (hg : ':' ∉ g.id.toList)
    (hg' : ':' ∉ g'.id.toList) (h : triggerKey g n = triggerKey g' n') :
    g.id = g'.id ∧ n.id = n'.id := by
  have hlist : g.id.toList ++ ':' :: n.id.toList = g'.id.toList ++ ':' :: n'.id.toList := by
    simpa [triggerKey, String.toList_append] using congrArg String.toList h
  have htake : ∀ (a b : List Char), ':' ∉ a →
      (a ++ ':' :: b).takeWhile (· ≠ ':') = a ∧ (a ++ ':' :: b).dropWhile (· ≠ ':') = ':' :: b := by
    intro a b ha
    have hall : ∀ c ∈ a, decide (c ≠ ':') = true := fun c hc =>
      decide_eq_true fun heq => ha (heq ▸ hc)
    rw [List.takeWhile_append_of_pos hall, List.dropWhile_append_of_pos hall]
    simp
  obtain ⟨ht, hd⟩ := htake _ n.id.toList hg
  obtain ⟨ht', hd'⟩ := htake _ n'.id.toList hg'
  rw [hlist] at ht hd
  rw [ht'] at ht
  rw [hd'] at hd
  exact ⟨String.toList_injective ht.symm, String.toList_injective (List.cons.inj hd).2.symm⟩

/-- The runs among the launched ones that begin at the node. -/
def launchesOf (g : Graph) (n : Node) (ls : List Launch) : List Launch :=
  ls.filter fun l => l.graph.id = g.id ∧ l.entryNodeID = n.id

private theorem launchesOf_append_other {g g' : Graph} {n n' : Node} (ls : List Launch)
    (label : String) (h : triggerKey g' n' ≠ triggerKey g n) :
    launchesOf g n (ls ++ [launch g' n' label ∅]) = launchesOf g n ls := by
  rw [launchesOf, List.filter_append, List.filter_cons_of_neg, List.filter_nil, List.append_nil]
  · rfl
  · intro hids
    obtain ⟨hg, hn⟩ : g'.id = g.id ∧ n'.id = n.id := of_decide_eq_true hids
    exact h (by rw [triggerKey, triggerKey, hg, hn])

/-- The turns of other nodes leave a node's entry and its launches alone. -/
private theorem tickNodes_other (loc : Location) (now : Int) {g : Graph} {n : Node}
    (gns : List (Graph × Node)) (s : Fired)
    (h : ∀ gn ∈ gns, triggerKey gn.1 gn.2 ≠ triggerKey g n) :
    (gns.foldl (tickNode loc now) s).lastFired.lookup (triggerKey g n) =
        s.lastFired.lookup (triggerKey g n) ∧
      launchesOf g n (gns.foldl (tickNode loc now) s).launches = launchesOf g n s.launches := by
  induction gns generalizing s with
  | nil => exact ⟨rfl, rfl⟩
  | cons gn gns ih =>
    have hne := h gn List.mem_cons_self
    obtain ⟨hentry, hlaunches⟩ := ih (tickNode loc now s gn) fun gn' hgn' =>
      h gn' (List.mem_cons_of_mem _ hgn')
    rw [List.foldl_cons, hentry, hlaunches]
    unfold tickNode
    dsimp only
    cases hturn : timeTurn loc gn.2 now (s.lastFired.lookup (triggerKey gn.1 gn.2)) with
    | none => exact ⟨rfl, rfl⟩
    | some turn =>
      obtain ⟨label, entry, fires⟩ := turn
      constructor
      · cases entry with
        | none => rfl
        | some t => exact AList.lookup_insert_ne hne.symm
      · cases fires with
        | false => rfl
        | true => exact launchesOf_append_other _ _ hne

/-- A node without a turn is launched by no tick. -/
theorem launchesOf_eq_nil {loc : Location} {graphs : List Graph} {g : Graph} {n : Node}
    {now : Int} {lastFired : LastFired} (howner : SoleOwner graphs g n)
    (hturn : timeTurn loc n now (lastFired.lookup (triggerKey g n)) = none) :
    launchesOf g n (evaluateTimeTriggers loc graphs now lastFired).launches = [] := by
  obtain ⟨pre, post, hsplit, hne⟩ := howner
  rw [evaluateTimeTriggers, hsplit, List.foldl_append, List.foldl_cons]
  rw [(tickNodes_other loc now post _ fun gn hgn => hne gn (List.mem_append_right _ hgn)).2]
  obtain ⟨hentry, hlaunches⟩ := tickNodes_other loc now pre ⟨lastFired, []⟩
    fun gn hgn => hne gn (List.mem_append_left _ hgn)
  rw [tickNode, hentry, hturn]
  exact hlaunches

/-- A tick acts on a node by the node's turn. -/
theorem evaluateTimeTriggers_turn {loc : Location} {graphs : List Graph} {g : Graph} {n : Node}
    {now : Int} {lastFired : LastFired} {label : String} {entry : Option Int} {fires : Bool}
    (howner : SoleOwner graphs g n)
    (hturn : timeTurn loc n now (lastFired.lookup (triggerKey g n)) =
      some (label, entry, fires)) :
    (evaluateTimeTriggers loc graphs now lastFired).lastFired.lookup (triggerKey g n) =
        entry.or (lastFired.lookup (triggerKey g n)) ∧
      launchesOf g n (evaluateTimeTriggers loc graphs now lastFired).launches =
        if fires then [launch g n label ∅] else [] := by
  obtain ⟨pre, post, hsplit, hne⟩ := howner
  rw [evaluateTimeTriggers, hsplit, List.foldl_append, List.foldl_cons]
  obtain ⟨hentry, hlaunches⟩ := tickNodes_other loc now post
    (tickNode loc now (pre.foldl (tickNode loc now) ⟨lastFired, []⟩) (g, n))
    fun gn hgn => hne gn (List.mem_append_right _ hgn)
  rw [hentry, hlaunches]
  obtain ⟨hentry, hlaunches⟩ := tickNodes_other loc now pre ⟨lastFired, []⟩
    fun gn hgn => hne gn (List.mem_append_left _ hgn)
  generalize pre.foldl (tickNode loc now) ⟨lastFired, []⟩ = s at hentry hlaunches
  dsimp only at hentry
  unfold tickNode
  dsimp only
  rw [hentry, hturn]
  constructor
  · cases entry with
    | none => exact hentry
    | some t => exact AList.lookup_insert _
  · cases fires with
    | false => exact hlaunches
    | true =>
      have happend : launchesOf g n (s.launches ++ [launch g n label ∅]) =
          [launch g n label ∅] := by
        rw [launchesOf, List.filter_append, ← launchesOf, hlaunches]
        simp [launchesOf, launch]
      exact happend

/-! ## Cron nodes -/

/-- The expression of a cron node. -/
def cronExpr (n : Node) : String := configString n.config "cron"

/-- The debounce of a cron node. -/
def minuteElapsed (last now : Int) : Bool := decide (last + minute ≤ now)

private theorem cronMatches_empty (loc : Location) (t : Int) : cronMatches loc "" t = false := rfl

private theorem sub_lt_minute (t u : Int) : Time.sub t u < minute ↔ ¬ u + minute ≤ t := by
  rw [Time.sub_lt_iff (by decide) (by decide)]
  omega

/-- A cron node's turn is a debounced firing. -/
theorem maybeFireCron_eq (loc : Location) (n : Node) (now : Int) (last : Option Int) :
    maybeFireCron loc n now last =
      (Debounce.after (cronMatches loc (cronExpr n)) minuteElapsed last now,
        Debounce.firesAt (cronMatches loc (cronExpr n)) minuteElapsed last now) := by
  unfold maybeFireCron Debounce.after Debounce.firesAt
  rw [← cronExpr]
  dsimp only
  by_cases hempty : cronExpr n = ""
  · rw [if_pos hempty, hempty, cronMatches_empty]
    rfl
  · rw [if_neg hempty]
    cases cronMatches loc (cronExpr n) now with
    | false => rfl
    | true =>
      cases last with
      | none => rfl
      | some l =>
        simp only [if_true, Bool.true_and, Option.all_some, minuteElapsed, sub_lt_minute]
        by_cases h : l + minute ≤ now
        · simp [h]
        · simp [h]

/-! ## Sequences of ticks -/

/-- One evaluation of the ticker, with the graphs there are at that time. -/
structure Tick where
  graphs : List Graph
  now : Int

/-- The launches of the node at each of a sequence of ticks. -/
def tickerRun (loc : Location) (g : Graph) (n : Node) : LastFired → List Tick → List (List Launch)
  | _, [] => []
  | lastFired, tick :: ticks =>
    let fired := evaluateTimeTriggers loc tick.graphs tick.now lastFired
    launchesOf g n fired.launches :: tickerRun loc g n fired.lastFired ticks

/-- The node is launched once at every tick whose minute matches its expression, and at no
other. -/
def CronFiringExact (loc : Location) (g : Graph) (n : Node) (lastFired : LastFired)
    (ticks : List Tick) : Prop :=
  tickerRun loc g n lastFired ticks = ticks.map fun tick =>
    if cronMatches loc (cronExpr n) tick.now then [launch g n "time:cron" ∅] else []

private theorem tickerRun_cron {loc : Location} {g : Graph} {n : Node} {ticks : List Tick}
    (htype : n.type = "trigger.cron") (howner : ∀ tick ∈ ticks, SoleOwner tick.graphs g n)
    (lastFired : LastFired) :
    tickerRun loc g n lastFired ticks =
      (Debounce.run (cronMatches loc (cronExpr n)) minuteElapsed
        (lastFired.lookup (triggerKey g n)) (ticks.map (·.now))).map fun fires =>
          if fires then [launch g n "time:cron" ∅] else [] := by
  induction ticks generalizing lastFired with
  | nil => rfl
  | cons tick ticks ih =>
    have hturn : timeTurn loc n tick.now (lastFired.lookup (triggerKey g n)) =
        some ("time:cron", maybeFireCron loc n tick.now (lastFired.lookup (triggerKey g n))) := by
      simp [timeTurn, htype]
    rw [maybeFireCron_eq] at hturn
    obtain ⟨hentry, hlaunches⟩ := evaluateTimeTriggers_turn (howner tick List.mem_cons_self) hturn
    rw [Debounce.after_or] at hentry
    rw [tickerRun, hlaunches, ih (fun t ht => howner t (List.mem_cons_of_mem _ ht)), hentry]
    rfl

/-- The ticker fires a cron node exactly when the matching ticks, and the recorded last firing
before them, are a full minute apart. -/
theorem cronFiringExact_iff {loc : Location} {g : Graph} {n : Node} {lastFired : LastFired}
    {ticks : List Tick} (htype : n.type = "trigger.cron")
    (howner : ∀ tick ∈ ticks, SoleOwner tick.graphs g n) :
    CronFiringExact loc g n lastFired ticks ↔
      List.IsChain (fun a b => a + minute ≤ b)
        ((lastFired.lookup (triggerKey g n)).toList ++
          (ticks.map (·.now)).filter (cronMatches loc (cronExpr n))) := by
  have hrun := Debounce.run_eq_map_due_iff (cronMatches loc (cronExpr n)) minuteElapsed
    (lastFired.lookup (triggerKey g n)) (ticks.map (·.now))
  simp only [minuteElapsed, decide_eq_true_eq] at hrun
  rw [← hrun, CronFiringExact, tickerRun_cron htype howner]
  have hinj : Function.Injective fun fires : Bool =>
      if fires then [launch g n "time:cron" ∅] else [] := by
    intro a b h
    cases a <;> cases b <;> simp_all
  rw [← (List.map_injective_iff.2 hinj).eq_iff, List.map_map, List.map_map]
  rfl

/-! ## Two jittered ticks -/

/-- A node that is due every minute. -/
def everyMinute : Node := ⟨"c", "trigger.cron", GoMap.ofList [("cron", .str "* * * * *")]⟩

def everyMinuteGraph : Graph where
  id := "g"
  name := "every minute"
  serverID := "s1"
  enabled := true
  nodes := [everyMinute]
  edges := []
  createdAt := 0
  updatedAt := 0

/-- Half a second into one minute and a fifth of a second into the next. -/
def jitteredTicks : List Tick :=
  [⟨[everyMinuteGraph], 500000000⟩, ⟨[everyMinuteGraph], 60200000000⟩]

private theorem soleOwner_everyMinute : SoleOwner [everyMinuteGraph] everyMinuteGraph everyMinute :=
  ⟨[], [], rfl, fun _ h => absurd h List.not_mem_nil⟩

/-- Of two ticks in consecutive minutes the second one is dropped. -/
theorem not_cronFiringExact_jittered :
    (jitteredTicks.map fun tick => Time.truncateMinute tick.now).Nodup ∧
      ¬ CronFiringExact (.fixed 0) everyMinuteGraph everyMinute ∅ jitteredTicks := by
  refine ⟨by decide, fun h => ?_⟩
  have hlengths := congrArg (List.map List.length) h
  have hcount : (tickerRun (.fixed 0) everyMinuteGraph everyMinute ∅ jitteredTicks).map
      List.length = [1, 0] := by decide +kernel
  have hdue : (jitteredTicks.map fun tick =>
      cronMatches (.fixed 0) (cronExpr everyMinute) tick.now) = [true, true] := by decide +kernel
  rw [hcount, List.map_map] at hlengths
  simp only [jitteredTicks, List.map_cons, List.map_nil, List.cons.injEq] at hdue hlengths
  simp [Function.comp_apply, hdue] at hlengths

/-- The condition at those ticks. -/
theorem cronFiringExact_iff_jittered :
    CronFiringExact (.fixed 0) everyMinuteGraph everyMinute ∅ jitteredTicks ↔
      List.IsChain (fun a b => a + minute ≤ b)
        (((∅ : LastFired).lookup (triggerKey everyMinuteGraph everyMinute)).toList ++
          (jitteredTicks.map (·.now)).filter
            (cronMatches (.fixed 0) (cronExpr everyMinute))) :=
  cronFiringExact_iff rfl (by simp [jitteredTicks, soleOwner_everyMinute])

end Konnekt.Scheduler
