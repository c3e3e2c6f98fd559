import Konnekt.Scheduler.Engine

/-!
# Triggers

Events launch runs of the graphs that answer to their server, and a ticker
launches runs of the graphs whose time has come. Both remember when a trigger
node last fired, under a key made of the graph's and the node's id.
-/

namespace Konnekt.Scheduler

open Go

/-- When each trigger last fired, by key. -/
abbrev LastFired := GoMap Int

/-- `g.ID + ":" + node.ID`. -/
def triggerKey (g : Graph) (n : Node) : String := g.id ++ ":" ++ n.id

/-- The bookkeeping of a round of triggers and the runs it launched. -/
structure Fired where
  lastFired : LastFired
  launches : List Launch

section

variable {W : Type}

/-- `graphAnswersTo`: the filter applies only when both servers are known. -/
def graphAnswersTo (svc : Services W) (w : W) (g : Graph) (serverID : String) : Bool :=
  serverID == "" || runServerID svc w g == "" || runServerID svc w g == serverID

/-! ## Event triggers -/

/-- The cooldown of a trigger node: five minutes unless it is configured. -/
def cooldown (config : GoMap Value) : Int :=
  match config.lookup "cooldownSeconds" with
  | some (.num f) =>
    if f.eq 0 || Float64.lt 0 f then wrapInt64 (toInt64 f * second) else 5 * minute
  | _ => 5 * minute

/-- `cooldownAllows`: the new bookkeeping if enough time has elapsed. -/
def cooldownAllows (now : Int) (key : String) (config : GoMap Value) (lastFired : LastFired) :
    Option LastFired :=
  match lastFired.lookup key with
  | some last =>
    if Time.sub now last < cooldown config then none else some (lastFired.insert key now)
  | none => some (lastFired.insert key now)

/-- A run seeded with an event's data under the trigger node and its alias. -/
def launch (g : Graph) (n : Node) (label : String) (seedData : GoMap Value) : Launch :=
  ⟨g, n.id, label, GoMap.ofList [(n.id, seedData), ("trigger", seedData)]⟩

/-- The body of the loop over a graph's nodes: launch what the event is for. -/
def fireNode (now : Int) (g : Graph) (wants : Node → Bool) (seedData : GoMap Value)
    (label : String) (s : Fired) (n : Node) : Fired :=
  if wants n then
    match cooldownAllows now (triggerKey g n) n.config s.lastFired with
    | none => s
    | some lastFired => ⟨lastFired, s.launches ++ [launch g n label seedData]⟩
  else s

/-- The loop all event triggers share, over the enabled graphs that answer to the server. -/
def fireEventTriggers (svc : Services W) (w : W) (graphs : List Graph) (serverID : String)
    (wants : Node → Bool) (seedData : GoMap Value) (label : String) (lastFired : LastFired) :
    Fired :=
  (graphs.filter fun g => g.enabled && graphAnswersTo svc w g serverID).foldl
    (fun s g => g.nodes.foldl (fireNode (svc.now w) g wants seedData label) s) ⟨lastFired, []⟩

/-- `fireTypedEventTriggers`. -/
def fireTypedEventTriggers (svc : Services W) (w : W) (graphs : List Graph)
    (serverID triggerType configType : String) (seedData : GoMap Value) (label : String) :
    LastFired → Fired :=
  fireEventTriggers svc w graphs serverID
    (fun n => n.type == triggerType && configString n.config "type" == configType) seedData label

/-- `fireRoutedEventTriggers`. -/
def fireRoutedEventTriggers (svc : Services W) (w : W) (graphs : List Graph)
    (serverID triggerType : String) (seedData : GoMap Value) (label : String) :
    LastFired → Fired :=
  fireEventTriggers svc w graphs serverID (fun n => n.type == triggerType) seedData label

/-- The threshold of a TPS trigger, a number or text that reads as one. -/
def tpsThreshold (config : GoMap Value) : Float64 :=
  match config.lookup "threshold" with
  | some (.num f) => f
  | some (.str s) => match parseFloat s with
    | .ok f => f
    | .error _ => 14
  | _ => 14

/-- `fireTPSTriggers`; a snapshot at or above the threshold does not fire. -/
def fireTPSTriggers (svc : Services W) (w : W) (graphs : List Graph) (serverID : String)
    (tps : Float64) : LastFired → Fired :=
  fireEventTriggers svc w graphs serverID
    (fun n => n.type == "trigger.tpsThreshold" &&
      !((tpsThreshold n.config).lt tps || (tpsThreshold n.config).eq tps))
    (GoMap.ofList [("tps", .num tps)]) "event:tps:low"

/-! ## Backup events -/

/-- The two backup events the scheduler subscribes to. -/
inductive BackupEvent where
  | completed (serverID filename : String)
  | failed (serverID : String)

namespace BackupEvent

def serverID : BackupEvent → String
  | completed serverID _ | failed serverID => serverID

/-- The `_route` the subscription seeds. -/
def route : BackupEvent → String
  | completed .. => "onComplete"
  | failed _ => "onFailed"

def seedData : BackupEvent → GoMap Value
  | completed _ filename => GoMap.ofList [("_route", .str "onComplete"), ("filename", .str filename)]
  | failed _ => GoMap.ofList [("_route", .str "onFailed")]

def label : BackupEvent → String
  | completed .. => "event:backup:completed"
  | failed _ => "event:backup:failed"

end BackupEvent

/-- The backup subscriptions of `startTriggers`. -/
def onBackupEvent (svc : Services W) (w : W) (graphs : List Graph) (ev : BackupEvent) :
    LastFired → Fired :=
  fireRoutedEventTriggers svc w graphs ev.serverID "trigger.backup" ev.seedData ev.label

end

/-! ## Cron expressions -/

/-- The digits behind a prefix of a cron field, as a number. -/
def cronRangeMatches (part : String) (val : Int) : Bool :=
  match cutAt '-' part with
  | some (lo, hi) => match atoi lo, atoi hi with
    | some lo, some hi => decide (lo ≤ val ∧ val ≤ hi)
    | _, _ => false
  | none => atoi part == some val

def cronFieldMatches (field : String) (val : Int) : Bool :=
  if field = "*" then true
  else match cutPrefix "*/" field with
    | some n => match atoi n with
      | some n => decide (0 < n ∧ val.tmod n = 0)
      | none => false
    | none => (split field ',').any fun part => cronRangeMatches part val

/-- `cronMatches`: five fields, each against its part of the wall clock. -/
def cronMatches (loc : Location) (expr : String) (t : Int) : Bool :=
  match fields expr with
  | [m, h, dom, mon, dow] =>
    cronFieldMatches m (Time.minuteOfHour loc t) && cronFieldMatches h (Time.hour loc t) &&
      cronFieldMatches dom (Time.dayOfMonth loc t) && cronFieldMatches mon (Time.month loc t) &&
      cronFieldMatches dow (Time.weekday loc t)
  | _ => false

/-! ## Time triggers -/

/-- The interval of an interval trigger: whole minutes, 60 unless it is configured. -/
def interval (n : Node) : Int :=
  let minutes : Float64 := match n.config.lookup "intervalMinutes" with
    | some (.num f) => if Float64.lt 0 f then f else 60
    | _ => 60
  wrapInt64 (toInt64 minutes * minute)

/-- `strings.SplitN(target, ":", 2)` of a time of day, its two numbers in range. -/
def parseTimeOfDay (n : Node) : Option (Int × Int) := do
  let (h, m) ← cutAt ':' (configString n.config "time")
  let h ← atoi (trimSpace h)
  let m ← atoi (trimSpace m)
  if h < 0 ∨ 23 < h ∨ m < 0 ∨ 59 < m then none else some (h, m)

/-- A time trigger's turn at `now`: the new entry for its key, if any, and whether it fires. -/
abbrev TimeTurn := Option Int × Bool

def maybeFireInterval (n : Node) (now : Int) (last : Option Int) : TimeTurn :=
  match last with
  | some last => if Time.sub now last < interval n then (some last, false) else (some now, true)
  | none => (some now, false)

def maybeFireTimeOfDay (loc : Location) (n : Node) (now : Int) (last : Option Int) : TimeTurn :=
  match parseTimeOfDay n with
  | none => (last, false)
  | some (h, m) =>
    if Time.hour loc now ≠ h ∨ Time.minuteOfHour loc now ≠ m then (last, false)
    else match last with
      | some l =>
        if Time.year loc l = Time.year loc now ∧ Time.yearDay loc l = Time.yearDay loc now then
          (last, false)
        else (some now, true)
      | none => (some now, true)

def maybeFireCron (loc : Location) (n : Node) (now : Int) (last : Option Int) : TimeTurn :=
  let expr := configString n.config "cron"
  if expr = "" then (last, false)
  else if cronMatches loc expr now then
    match last with
    | some l => if Time.sub now l < minute then (last, false) else (some now, true)
    | none => (some now, true)
  else (last, false)

/-- The turn of a node by its type, with the label of its runs; other nodes have none. -/
def timeTurn (loc : Location) (n : Node) (now : Int) (last : Option Int) :
    Option (String × TimeTurn) :=
  if n.type = "trigger.interval" then some ("time:interval", maybeFireInterval n now last)
  else if n.type = "trigger.timeOfDay" then
    some ("time:timeOfDay", maybeFireTimeOfDay loc n now last)
  else if n.type = "trigger.cron" then some ("time:cron", maybeFireCron loc n now last)
  else none

/-- Set the entry of a key, if there is one. -/
def setEntry (lastFired : LastFired) (key : String) : Option Int → LastFired
  | some t => lastFired.insert key t
  | none => lastFired

/-- One node of the ticker's loops. -/
def tickNode (loc : Location) (now : Int) (s : Fired) (gn : Graph × Node) : Fired :=
  let key := triggerKey gn.1 gn.2
  match timeTurn loc gn.2 now (s.lastFired.lookup key) with
  | none => s
  | some (label, entry, fires) =>
    ⟨setEntry s.lastFired key entry,
      if fires then s.launches ++ [launch gn.1 gn.2 label ∅] else s.launches⟩

/-- The nodes of the enabled graphs, in the order the ticker visits them. -/
def enabledNodes (graphs : List Graph) : List (Graph × Node) :=
  (graphs.filter (·.enabled)).flatMap fun g => g.nodes.map fun n => (g, n)

def evaluateTimeTriggers (loc : Location) (graphs : List Graph) (now : Int)
    (lastFired : LastFired) : Fired :=
  (enabledNodes graphs).foldl (tickNode loc now) ⟨lastFired, []⟩

/-! ## The displayed next run

The next run of a time trigger is computed apart from the ticker, from the
trigger's configuration and, for an interval, from when it last fired. No
instant stands for a trigger that is not expected to fire. -/

/-- Minutes scanned for the next match of a cron expression. -/
def cronScanWindow : Nat := 14 * 24 * 60

def nextInterval (n : Node) (now : Int) (last : Option Int) : Int :=
  match last with
  | some last => last + interval n
  | none => now + interval n

def nextTimeOfDay (loc : Location) (n : Node) (now : Int) : Option Int := do
  let (h, m) ← parseTimeOfDay n
  let fire := Time.date loc (Time.year loc now) (Time.month loc now) (Time.dayOfMonth loc now) h m
  return if now < fire then fire else fire + day

def nextCron (loc : Location) (n : Node) (now : Int) : Option Int :=
  let expr := configString n.config "cron"
  if trimSpace expr = "" then none
  else
    let start := Time.nextBoundary now
    ((List.range cronScanWindow).find? fun i : Nat =>
      cronMatches loc expr (start + i * minute)).map fun i => start + i * minute

def nextFireForNode (loc : Location) (lastFired : LastFired) (g : Graph) (n : Node)
    (now : Int) : Option Int :=
  if n.type = "trigger.interval" then
    some (nextInterval n now (lastFired.lookup (triggerKey g n)))
  else if n.type = "trigger.timeOfDay" then nextTimeOfDay loc n now
  else if n.type = "trigger.cron" then nextCron loc n now
  else none

end Konnekt.Scheduler
