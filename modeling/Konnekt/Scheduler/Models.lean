import Konnekt.Scheduler.Template

/-!
# Graphs, blocks and run records

The persisted data model of the scheduler and the surface block executors work
on. The world an executor acts on is a parameter: the model only asks it for the
time and for what the services answer about a server.
-/

namespace Konnekt.Scheduler

open Go

/-! ## Graph persistence -/

structure Node where
  id : String
  /-- `BlockDef.ID`. -/
  type : String
  /-- May contain templates. -/
  config : GoMap Value
  deriving DecidableEq

/-- A control edge sequences execution, a data edge carries a value between ports. -/
structure Edge where
  id : String
  kind : String
  source : String
  sourcePort : String
  target : String
  targetPort : String
  deriving DecidableEq

structure Graph where
  id : String
  name : String
  /-- The server this graph acts on; empty for a graph without an owner. -/
  serverID : String
  enabled : Bool
  nodes : List Node
  edges : List Edge
  createdAt : Int
  updatedAt : Int
  deriving DecidableEq

/-- `nodeByID`: of several nodes with one id the last one counts. -/
def Graph.nodeByID (g : Graph) (id : String) : Option Node :=
  g.nodes.reverse.find? (·.id == id)

/-! ## Block descriptors -/

structure DataPort where
  id : String
  label : String
  type : String
  deriving DecidableEq

/-- The part of a config field that the engine reads. -/
structure ConfigField where
  key : String
  type : String
  required : Bool := false
  deriving DecidableEq

structure BlockDef where
  id : String
  label : String
  isTrigger : Bool := false
  controlInputs : List String := []
  controlOutputs : List String := []
  dataInputs : List DataPort := []
  dataOutputs : List DataPort := []
  configSchema : List ConfigField := []
  source : String := ""
  primitive : String := ""
  timeoutSeconds : Int := 0
  deriving DecidableEq

/-! ## Run history -/

structure NodeRunRecord where
  nodeID : String
  type : String
  status : String
  firedPort : String
  startedAt : Int
  finishedAt : Int
  error : String
  downtimeMs : Int
  warning : String
  deriving DecidableEq

structure RunRecord where
  id : String
  graphID : String
  graphName : String
  trigger : String
  startedAt : Int
  finishedAt : Int
  status : String
  error : String
  nodes : List NodeRunRecord
  deriving DecidableEq

/-! ## Executors -/

/-- What a block executor returns. -/
structure ExecResult where
  /-- The control output to follow. -/
  port : String
  err : Option String
  downtimeMs : Int
  warning : String
  narrated : Bool
  deriving DecidableEq

namespace ExecResult

/-- `ExecResult{Port: port}`. -/
def done (port : String) : ExecResult := ⟨port, none, 0, "", false⟩

/-- `ExecResult{Port: "onFailed", Err: err}`. -/
def fail (message : String) : ExecResult := ⟨"onFailed", some message, 0, "", false⟩

end ExecResult

/-- The execution surface handed to a block executor. -/
structure ExecContext where
  serverID : String
  /-- The node's configuration with templates resolved and wired values laid over it. -/
  config : GoMap Value
  rawConfig : GoMap Value
  dataIn : GoMap Value
  attrs : AttrScope

namespace ExecContext

/-- `RawString`. -/
def rawString (e : ExecContext) (key : String) : String :=
  match e.rawConfig.lookup key with
  | none | some .nil => ""
  | some v => v.sprintV

/-- `GetString`. -/
def getString (e : ExecContext) (key : String) : String :=
  match e.config.lookup key with
  | none | some .nil => ""
  | some v => v.sprintV

/-- `GetFloat`. -/
def getFloat (e : ExecContext) (key : String) (default : Float64) : Float64 :=
  match e.config.lookup key with
  | some (.num f) => f
  | some (.int n) | some (.int64 n) => .fin n
  | _ => default

/-- `GetNumber`: a number or text that reads as a finite one. -/
def getNumber (e : ExecContext) (key : String) : Option Float64 :=
  match e.config.lookup key with
  | none | some .nil | some (.bool _) => none
  | some v => match toFloat v with
    | .ok (.fin q) => some (.fin q)
    | _ => none

end ExecContext

/-- What a finished executor leaves behind: its result, the outputs it set, the custom
attributes of the run and the world. -/
structure Executed (W : Type) where
  result : ExecResult
  dataOut : GoMap Value
  custom : GoMap String
  world : W

/-- A block executor. -/
abbrev ExecFunc (W : Type) := ExecContext → W → Outcome (Executed W)

/-! ## The registry -/

structure BlockEntry (W : Type) where
  blockDef : BlockDef
  exec : ExecFunc W

/-- `BlockRegistry`. -/
abbrev BlockRegistry (W : Type) := GoMap (BlockEntry W)

/-- `RegisterBlock`: the first registration of an id wins. -/
def BlockRegistry.registerBlock {W : Type} (r : BlockRegistry W) (blockDef : BlockDef)
    (exec : ExecFunc W) : Except String (BlockRegistry W) :=
  match r.lookup blockDef.id with
  | some _ => .error ("block " ++ quote blockDef.id ++ " already registered")
  | none => .ok (r.insert blockDef.id ⟨blockDef, exec⟩)

/-- What the scheduler reads of the world around it. -/
structure Services (W : Type) where
  /-- Nanoseconds since the epoch. -/
  now : W → Int
  /-- The answers of the services about one server. -/
  view : W → String → ServerView
  /-- `GetActiveServerID`, empty when it does not resolve. -/
  activeServerID : W → String
  /-- `DestinationService.Lookup`, if there is a destination service. -/
  destinations : Option (W → String → Except String Bool)

def Services.unixMilli {W : Type} (svc : Services W) (w : W) : Int := svc.now w / 1000000

end Konnekt.Scheduler
