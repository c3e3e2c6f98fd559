import Konnekt.Scheduler.Models

/-!
# Native blocks

Descriptors and executors of the built-in triggers, of the actions that talk to
the server, of conditions and of the data blocks. Executors act on the world
through the services the host offers.
-/

namespace Konnekt.Scheduler

open Go

/-- The operations block executors call, each on the world it is made in. -/
structure Host (W : Type) extends Services W where
  /-- `ServerService.Start` with the server's launch settings. -/
  startServer : String → W → Except String Unit × W
  /-- `ServerService.Stop`. -/
  stopServer : String → W → Except String Unit × W
  /-- `ServerService.Restart` with the server's launch settings. -/
  restartServer : String → W → Except String Unit × W
  /-- `ServerService.SendCommand`. -/
  sendCommand : String → String → W → Except String Unit × W
  /-- `ServerService.RconConfig`: address and password while RCON is available. -/
  rconConfig : W → String → Option (String × String)
  /-- `RconService.Execute`. -/
  rconExecute : String → String → String → W → Except String String × W
  /-- `writeProperty` on a server's `server.properties`. -/
  writeProperty : String → String → String → W → Except String Unit × W
  /-- `Emit(EventScheduleNotify, …)` with kind, message and destination. -/
  notify : String → String → String → W → W
  /-- `rand.Float64`. -/
  random : W → Float64 × W

/-- An executor that returns `r` in the world `w`, having set the outputs `out`. -/
def finish {W : Type} (e : ExecContext) (w : W) (r : ExecResult) (out : List (String × Value)) :
    Outcome (Executed W) :=
  .ok ⟨r, GoMap.ofList out, e.attrs.custom, w⟩

section

variable {W : Type}

/-! ## Triggers -/

/-- `triggerNoOp`. -/
def triggerNoOp : ExecFunc W := fun e w => finish e w (.done "onComplete") []

/-- `triggerRouted`: the seeded `_route` picks the port. -/
def triggerRouted : ExecFunc W := fun e w =>
  let port := e.getString "_route"
  finish e w (.done (if port = "" then "onComplete" else port)) []

/-! ## Actions -/

variable (h : Host W)

/-- The end of `execCommand`: the error of the call, or the command as an output. -/
def commandDone (e : ExecContext) (cmd : String) (r : Except String Unit × W) :
    Outcome (Executed W) :=
  match r with
  | (.error m, w) => finish e w (.fail m) []
  | (.ok _, w) => finish e w (.done "onComplete") [("command", .str cmd)]

def execCommand : ExecFunc W := fun e w =>
  let cmd := e.getString "command"
  if cmd = "" then finish e w (.fail "command is empty") []
  else if cmd = "__start__" then
    match (h.view w e.serverID).config with
    | .error m => finish e w (.fail m) []
    | .ok _ => commandDone e cmd (h.startServer e.serverID w)
  else if cmd = "__stop__" then commandDone e cmd (h.stopServer e.serverID w)
  else if cmd = "__restart__" then
    match (h.view w e.serverID).config with
    | .error m => finish e w (.fail m) []
    | .ok _ => commandDone e cmd (h.restartServer e.serverID w)
  else commandDone e cmd (h.sendCommand e.serverID cmd w)

def execRcon : ExecFunc W := fun e w =>
  match h.rconConfig w e.serverID with
  | none => finish e w (.fail "RCON not enabled or not running") []
  | some (addr, pw) =>
    let cmd := e.getString "command"
    if cmd = "" then finish e w (.fail "command is empty") []
    else match h.rconExecute addr pw cmd w with
      | (.error m, w) => finish e w (.fail m) []
      | (.ok resp, w) => finish e w (.done "onComplete") [("response", .str resp)]

/-- The key under which a writable attribute is stored. -/
def writableKey (attr : String) : String :=
  if attr = "players.max" then "max-players" else attrToPropertyKey attr

/-- The console command that applies a written attribute at once, if there is one. -/
def runtimeCommand (attr value : String) : Option String :=
  if attr = "server.whitelist" then
    some (if value = "true" ∨ value = "1" then "whitelist on" else "whitelist off")
  else if attr = "server.gamemode" then some ("defaultgamemode " ++ value)
  else none

def execWriteAttribute : ExecFunc W := fun e w =>
  let attr := trimPrefix (e.getString "attribute") "@"
  let value := e.getString "value"
  match builtinAttrs.lookup attr with
  | none =>
    -- a custom attribute keeps its raw text, and is evaluated on each reference
    let raw := e.rawString "value"
    let attrs := e.attrs.define attr (if raw = "" then value else raw)
    .ok ⟨.done "onComplete", ∅, attrs.custom, w⟩
  | some known =>
    if known.writable then
      match (h.view w e.serverID).config with
      | .error m => finish e w (.fail m) []
      | .ok _ => match h.writeProperty e.serverID (writableKey attr) value w with
        | (.error m, w) => finish e w (.fail m) []
        | (.ok _, w) =>
          let w := match runtimeCommand attr value with
            | some cmd => (h.sendCommand e.serverID cmd w).2
            | none => w
          finish e w (.done "onComplete") []
    else finish e w (.fail ("attribute @" ++ attr ++ " is read-only")) []

/-- `notifyDeliver`: everything but the two single destinations means both. -/
def notifyDeliver (v : String) : String :=
  if v = "inApp" ∨ v = "desktop" then v else "both"

def execNotify : ExecFunc W := fun e w =>
  let kind := e.getString "kind"
  finish e (h.notify (if kind = "" then "info" else kind) (e.getString "message")
    (notifyDeliver (e.getString "deliver")) w) (.done "onComplete") []

end

/-! ## Conditions -/

/-- Lower case of the ASCII letters, which is all a comparison with ASCII text needs. -/
def toLower (s : String) : String := String.ofList (s.toList.map lower)

/-- `gateEval`: the truth function of a gate operator. -/
def gateEval (op : String) : Option (Bool → Bool → Bool) :=
  if op = "and" then some fun a b => a && b
  else if op = "or" then some fun a b => a || b
  else if op = "xor" then some fun a b => a != b
  else if op = "nand" then some fun a b => !(a && b)
  else if op = "nor" then some fun a b => !(a || b)
  else none

/-- A number read as a boolean: non-zero and not a NaN. -/
def nonZero (f : Float64) : Bool := !f.eq 0 && f != .nan

def truthy : Value → Bool
  | .bool b => b
  | .str s =>
    let s := toLower (trimSpace s)
    if s = "true" then true
    else match toFloat (.str s) with
      | .ok f => nonZero f
      | .error _ => false
  | .nil => false
  | v => match toFloat v with
    | .ok f => nonZero f
    | .error _ => false

/-- `e.Config[key]`, nil when absent. -/
def ExecContext.value (e : ExecContext) (key : String) : Value :=
  (e.config.lookup key).getD .nil

/-- `operandIsTrue`: an unchecked box flips the operand. -/
def operandIsTrue (e : ExecContext) (valueKey flagKey : String) : Bool :=
  let want := match e.value flagKey with
    | .nil => true
    | v => truthy v
  truthy (e.value valueKey) == want

/-- `boolOperand`: a value read as a boolean, when it plausibly is one. -/
def boolOperand (v : Value) : Option Bool :=
  let number := match toFloat v with
    | .ok (.fin q) => some (q ≠ 0 : Bool)
    | _ => none
  match v with
  | .bool b => some b
  | .nil => none
  | .str s =>
    let t := toLower (trimSpace s)
    if t = "true" then some true else if t = "false" then some false else number
  | _ => number

def isBoolText : Value → Bool
  | .str s => toLower (trimSpace s) == "true" || toLower (trimSpace s) == "false"
  | _ => false

/-- `boolEquality`: equality by truth when one side is the text of a boolean. -/
def boolEquality (e : ExecContext) : Option Bool :=
  let l := e.value "left"
  let r := e.value "right"
  if isBoolText l || isBoolText r then
    match boolOperand l, boolOperand r with
    | some lb, some rb => some (lb == rb)
    | _, _ => none
  else none

/-- The order of two operands, by number if both are numbers and else by text. -/
def compareOperands (e : ExecContext) : Ordering :=
  match e.getNumber "left", e.getNumber "right" with
  | some lf, some rf => if lf.lt rf then .lt else if rf.lt lf then .gt else .eq
  | _, _ => compare (e.getString "left") (e.getString "right")

def compareValues (e : ExecContext) (op : String) : Bool :=
  match if op = "eq" ∨ op = "ne" then boolEquality e else none with
  | some equal => equal == (op == "eq")
  | none =>
    let cmp := compareOperands e
    if op = "ne" then cmp != .eq
    else if op = "gt" then cmp == .gt
    else if op = "lt" then cmp == .lt
    else if op = "contains" then
      decide ((e.getString "right").toList <:+: (e.getString "left").toList)
    else cmp == .eq

def execCondition {W : Type} : ExecFunc W := fun e w =>
  let op := e.getString "op"
  let outcome := match gateEval op with
    | some eval => eval (operandIsTrue e "left" "leftTrue") (operandIsTrue e "right" "rightTrue")
    | none => compareValues e op
  if outcome then finish e w (.done "onTrue") [("result", .num 1)]
  else finish e w (.done "onFalse") [("result", .num 0)]

/-! ## Data blocks -/

section

variable {W : Type}

def execServerAttribute : ExecFunc W := fun e w =>
  let attr := trimPrefix (e.getString "attribute") "@"
  match e.attrs.resolve attr with
  | .err m => finish e w (.fail m) []
  | .panic r => .panic r
  | .ok val => match checkAttrType val (e.getString "type") with
    | some m => finish e w (.fail ("@" ++ attr ++ ": " ++ m)) []
    | none => finish e w (.done "onComplete") [("value", val)]

def execConstant : ExecFunc W := fun e w =>
  let raw := e.getString "value"
  let typ := e.getString "type"
  if typ = "Float" then
    match parseFloat raw with
    | .error m =>
      finish e w (.fail ("cannot parse " ++ quote raw ++ " as float: " ++ m)) []
    | .ok f => finish e w (.done "onComplete") [("value", .num f)]
  else if typ = "Integer" then
    match parseInt "ParseInt" raw with
    | .error m =>
      finish e w (.fail ("cannot parse " ++ quote raw ++ " as integer: " ++ m)) []
    | .ok n => finish e w (.done "onComplete") [("value", .num (.fin n))]
  else if typ = "Boolean" then
    finish e w (.done "onComplete")
      [("value", .num (if raw = "true" ∨ raw = "1" then 1 else 0))]
  else finish e w (.done "onComplete") [("value", .str raw)]

def execRandomNumber (h : Host W) : ExecFunc W := fun e w =>
  let lo := e.getFloat "min" 1
  let hi := e.getFloat "max" 100
  let hi := if hi.lt lo then lo else hi
  let (r, w) := h.random w
  finish e w (.done "onComplete") [("value", .num (lo.add (r.mul (hi.sub lo))))]

/-- The result of the arithmetic of `execMathOp`; the remainder is taken of integers. -/
def mathOp (op : String) (a b : Float64) : Outcome Float64 :=
  if op = "add" then .ok (a.add b)
  else if op = "sub" then .ok (a.sub b)
  else if op = "mul" then .ok (a.mul b)
  else if op = "div" then if b.eq 0 then .err "division by zero" else .ok (a.div b)
  else if op = "mod" then
    if b.eq 0 then .err "modulo by zero"
    else (intMod (toInt64 a) (toInt64 b)).bind fun n => .ok (.fin n)
  else if op = "diff" then
    let d := a.sub b
    .ok (if d.lt 0 then d.neg else d)
  else .ok (a.add b)

def execMathOp : ExecFunc W := fun e w =>
  match mathOp (e.getString "op") (e.getFloat "a" 0) (e.getFloat "b" 0) with
  | .ok result => finish e w (.done "onComplete") [("result", .num result)]
  | .err m => finish e w (.fail m) []
  | .panic r => .panic r

end

/-! ## Registration -/

section

variable {W : Type} (h : Host W)

def cooldownPort : DataPort := ⟨"cooldownSeconds", "Cooldown", "number"⟩

def cooldownField : ConfigField := { key := "cooldownSeconds", type := "number" }

/-- A native trigger block. -/
def triggerDef (id label : String) (outputs : List String) (dataInputs dataOutputs : List DataPort)
    (configSchema : List ConfigField) : BlockDef :=
  { id := id, label := label, isTrigger := true, controlOutputs := outputs,
    dataInputs := dataInputs, dataOutputs := dataOutputs, configSchema := configSchema,
    source := "native" }

/-- A native block with control input and outputs. -/
def actionDef (id label : String) (outputs : List String) (dataInputs dataOutputs : List DataPort)
    (configSchema : List ConfigField) : BlockDef :=
  { id := id, label := label, controlInputs := ["trigger"], controlOutputs := outputs,
    dataInputs := dataInputs, dataOutputs := dataOutputs, configSchema := configSchema,
    source := "native" }

/-- A native pure-data block. -/
def dataDef (id label : String) (dataInputs dataOutputs : List DataPort)
    (configSchema : List ConfigField) : BlockDef :=
  { id := id, label := label, dataInputs := dataInputs, dataOutputs := dataOutputs,
    configSchema := configSchema, source := "native" }

/-- The trigger blocks of `registerBuiltins`. -/
def triggerBlocks : List (BlockDef × ExecFunc W) := [
  (triggerDef "trigger.player" "Player" ["onComplete"] [cooldownPort]
    [⟨"playerName", "Player name", "string"⟩, ⟨"playerIP", "Player IP", "string"⟩]
    [⟨"type", "select", true⟩, cooldownField], triggerNoOp),
  (triggerDef "trigger.backup" "Backup" ["onComplete", "onFailed"] [cooldownPort]
    [⟨"filename", "Backup filename", "string"⟩] [cooldownField], triggerRouted),
  (triggerDef "trigger.server" "Server" ["onComplete"] [cooldownPort] []
    [⟨"type", "select", true⟩, cooldownField], triggerNoOp),
  (triggerDef "trigger.interval" "Interval" ["onComplete"]
    [⟨"intervalMinutes", "Interval", "number"⟩] [] [⟨"intervalMinutes", "number", true⟩],
    triggerNoOp),
  (triggerDef "trigger.timeOfDay" "Time of Day" ["onComplete"] [⟨"time", "Time", "string"⟩] []
    [⟨"time", "string", true⟩], triggerNoOp),
  (triggerDef "trigger.cron" "Cron Schedule" ["onComplete"] [⟨"cron", "Cron", "string"⟩] []
    [⟨"cron", "string", true⟩], triggerNoOp),
  (triggerDef "trigger.tpsThreshold" "TPS Below Threshold" ["onComplete"]
    [⟨"threshold", "Threshold", "number"⟩, cooldownPort] [⟨"tps", "Current TPS", "number"⟩]
    [⟨"threshold", "number", true⟩, cooldownField], triggerNoOp)]

/-- The action, notification and control blocks that are embedded. -/
def actionBlocks : List (BlockDef × ExecFunc W) := [
  (actionDef "action.command" "Command" ["onComplete", "onFailed"]
    [⟨"command", "Command", "string"⟩] [⟨"command", "Command sent", "string"⟩]
    [⟨"command", "command", false⟩], execCommand h),
  (actionDef "action.rcon" "RCON Command" ["onComplete", "onFailed"]
    [⟨"command", "Command", "string"⟩] [⟨"response", "Response", "string"⟩]
    [⟨"command", "command", true⟩], execRcon h),
  (actionDef "data.writeAttribute" "Write Attribute" ["onComplete", "onFailed"]
    [⟨"value", "Value", "string"⟩] []
    [⟨"attribute", "attribute", true⟩, ⟨"value", "string", true⟩], execWriteAttribute h),
  (actionDef "action.notify" "Notify" ["onComplete"] [⟨"message", "Message", "string"⟩] []
    [⟨"kind", "select", false⟩, ⟨"message", "string", true⟩, ⟨"deliver", "select", false⟩],
    execNotify h),
  (actionDef "control.condition" "Condition" ["onTrue", "onFalse"]
    [⟨"left", "A", "string"⟩, ⟨"right", "B", "string"⟩] [⟨"result", "Result", "bool"⟩]
    [⟨"op", "select", false⟩, ⟨"left", "string", true⟩, ⟨"right", "string", true⟩,
      ⟨"leftTrue", "bool", false⟩, ⟨"rightTrue", "bool", false⟩], execCondition)]

/-- The blocks of `registerDataBuiltins`. -/
def dataBlocks : List (BlockDef × ExecFunc W) := [
  (dataDef "data.serverAttribute" "Read Attribute" [] [⟨"value", "Value", "auto"⟩]
    [⟨"attribute", "attribute", true⟩, ⟨"type", "select", false⟩], execServerAttribute),
  (dataDef "data.constant" "Constant" [] [⟨"value", "Value", "auto"⟩]
    [⟨"type", "select", false⟩, ⟨"value", "string", true⟩], execConstant),
  (dataDef "data.randomNumber" "Random Number"
    [⟨"min", "Min", "number"⟩, ⟨"max", "Max", "number"⟩] [⟨"value", "Value", "number"⟩]
    [⟨"min", "number", false⟩, ⟨"max", "number", false⟩], execRandomNumber h),
  (dataDef "data.mathOp" "Math" [⟨"a", "A", "number"⟩, ⟨"b", "B", "number"⟩]
    [⟨"result", "Result", "number"⟩]
    [⟨"a", "number", false⟩, ⟨"op", "select", false⟩, ⟨"b", "number", false⟩], execMathOp)]

/-- Register blocks in order. A block whose id is taken is left out. -/
def registerAll (blocks : List (BlockDef × ExecFunc W)) (r : BlockRegistry W) :
    BlockRegistry W :=
  blocks.foldl (fun r b => match r.registerBlock b.1 b.2 with
    | .ok r => r
    | .error _ => r) r

/-- The embedded native blocks, in the order of their registration. -/
def builtinBlocks : List (BlockDef × ExecFunc W) := triggerBlocks ++ actionBlocks h ++ dataBlocks h

def builtinRegistry : BlockRegistry W := registerAll (builtinBlocks h) ∅

end

/-- Of several blocks with one id, the first registration wins. -/
theorem lookup_registerAll {W : Type} (blocks : List (BlockDef × ExecFunc W))
    (r : BlockRegistry W) (id : String) :
    (registerAll blocks r).lookup id =
      (r.lookup id).or ((blocks.find? (·.1.id == id)).map fun b => ⟨b.1, b.2⟩) := by
  induction blocks generalizing r with
  | nil => simp [registerAll]
  | cons b blocks ih =>
    have hcons : registerAll (b :: blocks) r =
        registerAll blocks (match r.registerBlock b.1 b.2 with
          | .ok r => r
          | .error _ => r) := rfl
    rw [hcons, ih, List.find?_cons]
    unfold BlockRegistry.registerBlock
    by_cases hid : b.1.id = id
    · subst hid
      cases hr : r.lookup b.1.id with
      | some entry => simp [hr]
      | none => simp
    · have hbeq : (b.1.id == id) = false := beq_eq_false_iff_ne.2 hid
      cases hr : r.lookup b.1.id with
      | some entry => simp [hbeq]
      | none => simp [hbeq, AList.lookup_insert_ne (Ne.symm hid)]

theorem lookup_builtinRegistry {W : Type} (h : Host W) (id : String) :
    (builtinRegistry h).lookup id =
      ((builtinBlocks h).find? (·.1.id == id)).map fun b => ⟨b.1, b.2⟩ := by
  rw [builtinRegistry, lookup_registerAll, AList.lookup_empty, Option.none_or]

/-- A registry the built-in blocks were registered in first. -/
inductive BuiltinFirst {W : Type} (h : Host W) : BlockRegistry W → Prop
  | builtin : BuiltinFirst h (builtinRegistry h)
  | register {r r' : BlockRegistry W} {blockDef : BlockDef} {exec : ExecFunc W}
      (hr : BuiltinFirst h r) (hreg : r.registerBlock blockDef exec = .ok r') :
      BuiltinFirst h r'

/-- Later registrations leave the built-in blocks alone. -/
theorem BuiltinFirst.lookup {W : Type} {h : Host W} {r : BlockRegistry W}
    (hr : BuiltinFirst h r) {id : String} {entry : BlockEntry W}
    (hb : (builtinRegistry h).lookup id = some entry) : r.lookup id = some entry := by
  induction hr with
  | builtin => exact hb
  | @register r r' blockDef exec hr hreg ih =>
    unfold BlockRegistry.registerBlock at hreg
    cases hid : r.lookup blockDef.id with
    | some e => simp [hid] at hreg
    | none =>
      simp only [hid, Except.ok.injEq] at hreg
      have hne : id ≠ blockDef.id := by
        rintro rfl
        rw [ih] at hid
        cases hid
      rw [← hreg, AList.lookup_insert_ne hne]
      exact ih

/-- A host without servers on which nothing ever happens. -/
def idleHost : Host Unit where
  now := fun _ => 0
  view := fun _ _ =>
    { tps := 20, playerCount := 0, ramUsed := 0, ramTotal := 0, running := false,
      maxPlayers := 20, config := .error "server not found",
      properties := .error "server not found" }
  activeServerID := fun _ => ""
  destinations := none
  startServer := fun _ w => (.ok (), w)
  stopServer := fun _ w => (.ok (), w)
  restartServer := fun _ w => (.ok (), w)
  sendCommand := fun _ _ w => (.ok (), w)
  rconConfig := fun _ _ => none
  rconExecute := fun _ _ _ w => (.ok "", w)
  writeProperty := fun _ _ _ w => (.ok (), w)
  notify := fun _ _ _ w => w
  random := fun w => (0, w)

end Konnekt.Scheduler
