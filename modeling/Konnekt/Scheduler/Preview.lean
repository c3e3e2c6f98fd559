import Konnekt.Scheduler.Engine

/-!
# Previews

A preview resolves one node of a graph against the live server as a run would,
executes nothing but pure-data nodes and describes in words what the node would
do. Custom attributes come from every node of the graph that writes one.
-/

namespace Konnekt.Scheduler

open Go Lexing

structure AttrValue where
  name : String
  value : String := ""
  type : String := ""
  writable : Bool := false
  error : String := ""
  deriving DecidableEq

structure NodePreview where
  nodeID : String
  attributes : List AttrValue
  console : List String
  ok : Bool
  deriving DecidableEq

def asString : Value → String
  | .nil => ""
  | v => v.sprintV

/-- A map's entry, nil when absent. -/
def configValue (config : GoMap Value) (key : String) : Value := (config.lookup key).getD .nil

section

variable {W : Type}

/-! ## Resolving the node -/

/-- The surroundings of a preview: a run that no trigger started. -/
def previewEnv (svc : Services W) (reg : BlockRegistry W) (g : Graph) (w : W) : RunEnv W where
  svc := svc
  registry := reg
  graph := g
  serverID := runServerID svc w g
  entryNodeID := ""
  sharesTrigger := false
  startedAt := svc.now w

/-- The attribute a Write Attribute node names. -/
def writeTarget (config : GoMap Value) : String :=
  trimPrefix (asString (configValue config "attribute")) "@"

/-- Define the custom attribute a node writes: its wired value as a literal, or else the
configured expression. -/
def gatherAttribute (env : RunEnv W) (st : RunState W) (n : Node) : Outcome (RunState W) :=
  let target := writeTarget n.config
  if n.type ≠ "data.writeAttribute" ∨ target = "" ∨ (builtinAttrs.lookup target).isSome then .ok st
  else do
    let st ← pullDataDependencies env n.id st
    let expr := match configValue (resolveDataInputs n.id env.graph.edges st.outputs) "value" with
      | .nil => asString (configValue n.config "value")
      | v => toStr v
    return { st with custom := st.custom.insert target expr }

/-- The outputs and attributes a node is previewed with. -/
def previewState (env : RunEnv W) (nodeID : String) (w : W) : Outcome (RunState W) := do
  let st ← env.graph.nodes.foldlM (gatherAttribute env) ⟨∅, ∅, w⟩
  pullDataDependencies env nodeID st

/-! ## Attributes -/

/-- `attrRow`. -/
def attrRow (name : String) (scope : AttrScope) : Outcome AttrValue :=
  let row : AttrValue := match builtinAttrs.lookup name with
    | some known => { name := name, type := known.type, writable := known.writable }
    | none => { name := name, type := if scope.isCustom name then "custom" else "unknown" }
  match scope.resolve name with
  | .ok v => .ok { row with value := toStr v }
  | .err m => .ok { row with error := m }
  | .panic r => .panic r

/-- The names of attributes mentioned in the strings of a configuration. -/
def refNames (config : GoMap Value) : List String :=
  (config.entries.flatMap fun e => match e.2 with
    | .str s => tokens (lex reAttrRef s.toList)
    | _ => []).dedup

/-- The row of the attribute a Write Attribute node writes, and whether it may. -/
def writeRow (target : String) (resolvedCfg : GoMap Value) (scope : AttrScope) :
    Outcome (AttrValue × Bool) :=
  match builtinAttrs.lookup target with
  | some known =>
    if known.writable then
      .ok ({ name := target, type := known.type, writable := true,
             value := toStr (configValue resolvedCfg "value") }, true)
    else .ok ({ name := target, type := known.type, error := "read-only" }, false)
  | none => do
    let row ← attrRow target scope
    return (row, true)

/-- The rows of the attributes a node writes and mentions. -/
def previewAttributes (n : Node) (resolvedCfg : GoMap Value) (scope : AttrScope) :
    Outcome (List AttrValue × Bool) := do
  let target := if n.type = "data.writeAttribute" then writeTarget resolvedCfg else ""
  let names := ((refNames n.config).filter (· ≠ target)).mergeSort
  let rows ← names.mapM fun name => attrRow name scope
  if target = "" then return (rows, true)
  let (row, ok) ← writeRow target resolvedCfg scope
  return (row :: rows, ok)

/-! ## The description -/

/-- A line about one output of an executed pure-data node. -/
def outputLine (blockDef : BlockDef) (dataOut : GoMap Value) (port : String) : String :=
  let labels := GoMap.ofList (blockDef.dataOutputs.map fun p => (p.id, p.label))
  let label := (labels.lookup port).getD ""
  (if label = "" then port else label) ++ " = " ++ toStr (configValue dataOut port)

/-- The command a Command or RCON node would act on, described behind `verb`. -/
def simulateCommand (verb : String) (resolvedCfg : GoMap Value) : List String × Bool :=
  let cmd := toStr (configValue resolvedCfg "command")
  if cmd = "" then (["would fail: command is empty"], false) else ([verb ++ cmd], true)

def simulateWrite (resolvedCfg : GoMap Value) : List String × Bool :=
  let target := writeTarget resolvedCfg
  let val := toStr (configValue resolvedCfg "value")
  if target = "" then (["would fail: no attribute name"], false)
  else match builtinAttrs.lookup target with
    | some known =>
      if known.writable then (["would write @" ++ target ++ " = " ++ val], true)
      else (["ERROR: @" ++ target ++ " is read-only"], false)
    | none =>
      if val = "" then (["would define @" ++ target ++ " = (value is null)"], false)
      else (["would define @" ++ target ++ " = " ++ val], true)

def simulateRequest (resolvedCfg : GoMap Value) : List String × Bool :=
  let method := asString (configValue resolvedCfg "method")
  let url := toStr (configValue resolvedCfg "url")
  if url = "" then (["would fail: url is empty"], false)
  else (["would " ++ (if method = "" then "POST" else method) ++ " " ++ url], true)

def simulateRead (resolvedCfg : GoMap Value) (scope : AttrScope) :
    Outcome (List String × Bool) :=
  let name := writeTarget resolvedCfg
  if name = "" then .ok (["would fail: no attribute name"], false)
  else match scope.resolve name with
    | .panic r => .panic r
    | .err _ => .ok (["ERROR: @" ++ name ++ " is undefined"], false)
    | .ok val => match checkAttrType val (asString (configValue resolvedCfg "type")) with
      | some m => .ok (["ERROR: @" ++ name ++ " — " ++ m], false)
      | none => .ok (["reads @" ++ name ++ " = " ++ toStr val], true)

/-- A pure-data node is executed; of any other block the label is shown. -/
def simulateBlock (reg : BlockRegistry W) (n : Node) (ctx : ExecContext) (w : W) :
    Outcome ((List String × Bool) × W) :=
  match reg.lookup n.type with
  | none => .ok ((["would execute " ++ n.type], true), w)
  | some entry =>
    if isPureData entry.blockDef then do
      let r ← entry.exec ctx w
      match r.result.err with
      | some m => return ((["would fail: " ++ m], false), r.world)
      | none =>
        let lines := r.dataOut.keys.mergeSort.map (outputLine entry.blockDef r.dataOut)
        return ((if lines = [] then ["(no output)"] else lines, true), r.world)
    else .ok ((["would execute " ++ entry.blockDef.label], true), w)

/-- `simulateNode`: the console lines and whether the node would succeed. -/
def simulateNode (reg : BlockRegistry W) (n : Node) (ctx : ExecContext) (w : W) :
    Outcome ((List String × Bool) × W) :=
  if n.type = "data.writeAttribute" then .ok (simulateWrite ctx.config, w)
  else if n.type = "action.notify" then
    .ok ((["would notify: " ++ toStr (configValue ctx.config "message")], true), w)
  else if n.type = "action.command" then .ok (simulateCommand "would run: " ctx.config, w)
  else if n.type = "action.rcon" then .ok (simulateCommand "would rcon: " ctx.config, w)
  else if n.type = "action.httpRequest" then .ok (simulateRequest ctx.config, w)
  else if n.type = "data.serverAttribute" then do
    let described ← simulateRead ctx.config ctx.attrs
    return (described, w)
  else simulateBlock reg n ctx w

/-- `PreviewNode`, with the world pure-data nodes leave behind. -/
def previewNode (svc : Services W) (reg : BlockRegistry W) (g : Graph) (nodeID : String) (w : W) :
    Outcome (NodePreview × W) :=
  match g.nodeByID nodeID with
  | none => .err ("node " ++ quote nodeID ++ " not found")
  | some n => do
    let env := previewEnv svc reg g w
    let st ← previewState env nodeID w
    let ctx ← execContext env st n
    let (attributes, writes) ← previewAttributes n ctx.config ctx.attrs
    let ((console, succeeds), w) ← simulateNode reg n ctx st.world
    return ({ nodeID := nodeID, attributes := attributes, console := console,
              ok := writes && succeeds }, w)

end

end Konnekt.Scheduler
