import Mathlib
import Konnekt.Go.Clock
import Konnekt.Run.Worklist
import Konnekt.Scheduler.Validate

/-!
# The execution engine

A run works off a queue of control nodes. Before a node executes, the pure-data
nodes its inputs are wired to are evaluated, unless they have outputs already;
then its configuration is resolved, wired values are laid over it and the block's
executor is called. The fired port selects the control edges to follow.
-/

namespace Konnekt.Scheduler

open Go Worklist

/-! ## Limits -/

def maxNodesPerRun : Nat := 500

/-- `maxBlockTimeout` in seconds. -/
def maxBlockTimeoutSeconds : Int := 7 * 24 * 3600

def maxRunDuration : Int := 30 * minute

def nodeTimeout : Int := minute

/-- How long one execution of a block may take. -/
def blockTimeout (blockDef : BlockDef) : Int :=
  if blockDef.timeoutSeconds ≤ 0 then nodeTimeout
  else min blockDef.timeoutSeconds maxBlockTimeoutSeconds * second

/-- Every execution has some time. -/
theorem blockTimeout_pos (blockDef : BlockDef) : 0 < blockTimeout blockDef := by
  unfold blockTimeout
  by_cases hdeclared : blockDef.timeoutSeconds ≤ 0
  · rw [if_pos hdeclared]
    decide
  · rw [if_neg hdeclared]
    exact Int.mul_pos (lt_min (by omega) (by decide)) (by decide)

/-- The part a node's declared limit adds to the cap of a run. -/
def declaredTimeout {W : Type} (reg : BlockRegistry W) (n : Node) : Int :=
  match reg.lookup n.type with
  | none => 0
  | some entry => if entry.blockDef.timeoutSeconds ≤ 0 then 0 else blockTimeout entry.blockDef

/-- The cap of a run of `g`. -/
def runDuration {W : Type} (reg : BlockRegistry W) (g : Graph) : Int :=
  max maxRunDuration (g.nodes.map (declaredTimeout reg)).sum

/-! ## A run in progress -/

/-- What stays fixed during a run. -/
structure RunEnv (W : Type) where
  svc : Services W
  registry : BlockRegistry W
  graph : Graph
  /-- The server the run acts on. -/
  serverID : String
  entryNodeID : String
  /-- `trigger` and the entry node name one and the same map of outputs. -/
  sharesTrigger : Bool
  /-- When the run was started. -/
  startedAt : Int

/-- What a run changes. -/
structure RunState (W : Type) where
  outputs : Outputs
  /-- The custom attributes defined so far. -/
  custom : GoMap String
  world : W

section

variable {W : Type}

namespace RunEnv

variable (env : RunEnv W)

/-- The attribute scope at a moment of the run. -/
def scope (st : RunState W) : AttrScope := ⟨env.serverID, env.svc.view st.world, st.custom⟩

/-- The run's context is done: its cap has passed. -/
def expired (w : W) : Bool :=
  decide (env.startedAt + runDuration env.registry env.graph ≤ env.svc.now w)

end RunEnv

/-- `timeoutError`: the error of a node that ran from `w` to `w'`, naming its limit when
the node, but not the run, was out of time. -/
def timeoutError (env : RunEnv W) (limit : Int) (w w' : W) (err : Option String) :
    Option String :=
  err.map fun m =>
    if env.expired w' = false ∧ env.svc.now w + limit ≤ env.svc.now w' then
      "timed out after " ++ formatG (.fin (limit / second : ℚ)) ++ "s: " ++ m
    else m

/-- `resolveDataInputs`: of several edges into one port the last with a value counts. -/
def resolveDataInputs (nodeID : String) (edges : List Edge) (outputs : Outputs) :
    GoMap Value :=
  edges.foldl (fun dataIn e =>
    if e.kind = "data" ∧ e.target = nodeID then
      match lookupOutput outputs e.source e.sourcePort with
      | .nil => dataIn
      | v => dataIn.insert e.targetPort v
    else dataIn) ∅

/-- The execution surface of a node: its resolved configuration under the wired values. -/
def execContext (env : RunEnv W) (st : RunState W) (node : Node) : Outcome ExecContext := do
  let resolvedConfig ← resolveConfigTemplates (env.scope st) node.config st.outputs
  let dataIn := resolveDataInputs node.id env.graph.edges st.outputs
  return { serverID := env.serverID, config := resolvedConfig.overlay dataIn,
           rawConfig := node.config, dataIn := dataIn, attrs := env.scope st }

/-! ## Pulling data -/

/-- A value node: no control inputs and no control outputs. -/
def isPureData (blockDef : BlockDef) : Bool :=
  blockDef.controlInputs.isEmpty && blockDef.controlOutputs.isEmpty

/-- The loop over the data edges into a node. -/
def pullEdges (ensure : String → RunState W → Outcome (RunState W)) (nodeID : String) :
    List Edge → RunState W → Outcome (RunState W)
  | [], st => .ok st
  | e :: es, st =>
    if e.kind = "data" ∧ e.target = nodeID then do
      let st ← ensure e.source st
      pullEdges ensure nodeID es st
    else pullEdges ensure nodeID es st

/-- A node without wired inputs pulls nothing. -/
theorem pullEdges_of_not_wired {ensure : String → RunState W → Outcome (RunState W)}
    {nodeID : String} {edges : List Edge}
    (h : ∀ e ∈ edges, ¬ (e.kind = "data" ∧ e.target = nodeID)) (st : RunState W) :
    pullEdges ensure nodeID edges st = .ok st := by
  induction edges with
  | nil => rfl
  | cons e edges ih =>
    rw [pullEdges, if_neg (h e List.mem_cons_self)]
    exact ih fun e he => h e (List.mem_cons_of_mem _ he)

/-- The evaluation of a pure-data node whose inputs have been pulled. -/
def evaluateData (env : RunEnv W) (node : Node) (exec : ExecFunc W) (st : RunState W) :
    Outcome (RunState W) := do
  let ctx ← execContext env st node
  let r ← exec ctx st.world
  return { outputs := if r.dataOut.isEmpty then st.outputs
             else st.outputs.insert node.id r.dataOut,
           custom := r.custom, world := r.world }

/-- `ensureDataOutputs`: evaluate a pure-data node that has no outputs yet, its inputs first.
The names in `visiting` are being evaluated; a cycle leaves the output absent. -/
def ensureDataOutputs (env : RunEnv W) :
    Nat → List String → String → RunState W → Outcome (RunState W)
  | 0, _, _, _ => .panic outOfBudget
  | n + 1, visiting, nodeID, st =>
    if (st.outputs.lookup nodeID).isSome ∨ nodeID ∈ visiting then .ok st
    else match env.graph.nodeByID nodeID with
      | none => .ok st
      | some node => match env.registry.lookup node.type with
        | none => .ok st
        | some entry =>
          if isPureData entry.blockDef then do
            let st ← pullEdges (ensureDataOutputs env n (nodeID :: visiting)) nodeID
              env.graph.edges st
            evaluateData env node entry.exec st
          else .ok st

/-- Nested evaluations are distinct nodes of the graph. -/
def pullBudget (g : Graph) : Nat := g.nodes.length + 1

def pullDataDependencies (env : RunEnv W) (nodeID : String) (st : RunState W) :
    Outcome (RunState W) :=
  pullEdges (ensureDataOutputs env (pullBudget env.graph) []) nodeID env.graph.edges st

/-! ## Executing one node -/

/-- The names under which a node's outputs are read. -/
def RunEnv.outputNames (env : RunEnv W) (nodeID : String) : List String :=
  if env.sharesTrigger ∧ (nodeID = env.entryNodeID ∨ nodeID = "trigger") then
    [env.entryNodeID, "trigger"]
  else [nodeID]

/-- Lay a node's new outputs over the ones it has. -/
def storeOutputs (env : RunEnv W) (outputs : Outputs) (nodeID : String)
    (dataOut : GoMap Value) : Outputs :=
  if dataOut.isEmpty then outputs
  else
    let ports := ((outputs.lookup nodeID).getD ∅).overlay dataOut
    (env.outputNames nodeID).foldl (fun m name => m.insert name ports) outputs

/-- `executeNode`. -/
def executeNode (env : RunEnv W) (node : Node) (st : RunState W) :
    Outcome (ExecResult × RunState W) :=
  match env.registry.lookup node.type with
  | none => .ok (.fail ("unknown block type " ++ quote node.type), st)
  | some entry =>
    if entry.blockDef.isTrigger then .ok (.done "onComplete", st)
    else do
      let st ← pullDataDependencies env node.id st
      let ctx ← execContext env st node
      let r ← entry.exec ctx st.world
      let limit := blockTimeout entry.blockDef
      return ({ r.result with err := timeoutError env limit st.world r.world r.result.err },
        { outputs := storeOutputs env st.outputs node.id r.dataOut,
          custom := r.custom, world := r.world })

/-! ## The queue loop -/

structure Work where
  nodeID : String
  /-- The port of the node's control input; nothing reads it. -/
  arrivedOn : String
  deriving DecidableEq

/-- The state the queue loop accumulates. -/
structure Progress (W : Type) where
  run : RunState W
  nodes : List NodeRunRecord
  failed : Bool
  firstErr : String
  firstNarrated : Bool

/-- The port a result fires; an executor may leave it to its error. -/
def firedPort (r : ExecResult) : String :=
  if r.port = "" then if r.err.isSome then "onFailed" else "onComplete" else r.port

/-- The control edges leaving a node on a port, as work. -/
def followEdges (g : Graph) (nodeID port : String) : List Work :=
  (g.edges.filter fun e => e.kind = "control" ∧ e.source = nodeID ∧ e.sourcePort = port).map
    fun e => ⟨e.target, e.targetPort⟩

def nodeRunRecord (svc : Services W) (node : Node) (r : ExecResult) (w w' : W) :
    NodeRunRecord where
  nodeID := node.id
  type := node.type
  status := if r.err.isSome then "failed" else "success"
  firedPort := firedPort r
  startedAt := svc.unixMilli w
  finishedAt := svc.unixMilli w'
  error := r.err.getD ""
  downtimeMs := r.downtimeMs
  warning := r.warning

/-- Add an executed node to the run; the first failure is the run's. -/
def Progress.add (p : Progress W) (svc : Services W) (node : Node) (r : ExecResult)
    (run : RunState W) : Progress W where
  run := run
  nodes := p.nodes ++ [nodeRunRecord svc node r p.run.world run.world]
  failed := p.failed || r.err.isSome
  firstErr := if p.failed then p.firstErr else r.err.getD p.firstErr
  firstNarrated := if p.failed then p.firstNarrated
    else if r.err.isSome then r.narrated else p.firstNarrated

/-- A queued item is executed if the graph has its node. -/
def known (g : Graph) (item : Work) : Bool := (g.nodeByID item.nodeID).isSome

/-- One pass of the queue loop's body. -/
def turn (env : RunEnv W) (p : Progress W) (item : Work) :
    Outcome (Turn (Progress W) Work) :=
  match env.graph.nodeByID item.nodeID with
  | none => .ok ⟨p, [], false⟩
  | some node => do
    let (r, run) ← executeNode env node p.run
    return { state := p.add env.svc node r run,
             next := followEdges env.graph node.id (firedPort r),
             stop := env.expired run.world }

def abortedMessage : String :=
  "aborted: exceeded " ++ toString maxNodesPerRun ++ " node executions (possible cycle)"

/-- What is reported after the loop: failure, its text, and whether the block narrated it. -/
def verdict (c : Config (Progress W) Work) (stopped : Bool) : Bool × String × Bool :=
  if stopped then (true, "run exceeded maximum duration", false)
  else if maxNodesPerRun ≤ c.count then (true, abortedMessage, false)
  else (c.state.failed, c.state.firstErr, c.state.firstNarrated)

/-! ## A whole run -/

/-- `runServerID`: the server a graph acts on. -/
def runServerID (svc : Services W) (w : W) (g : Graph) : String :=
  if g.serverID = "" then svc.activeServerID w else g.serverID

/-- What a run is started with. -/
structure Launch where
  graph : Graph
  entryNodeID : String
  label : String
  /-- Outputs by node, with `trigger` as an alias for the entry node. -/
  seed : Outputs

/-- The outputs a run begins with. -/
def initialOutputs (l : Launch) : Outputs :=
  if l.entryNodeID = "" then l.seed
  else match l.seed.lookup "trigger" with
    | some _ => l.seed
    | none => l.seed.insert "trigger" ((l.seed.lookup l.entryNodeID).getD ∅)

def runEnv (svc : Services W) (reg : BlockRegistry W) (l : Launch) (w : W) : RunEnv W where
  svc := svc
  registry := reg
  graph := l.graph
  serverID := runServerID svc w l.graph
  entryNodeID := l.entryNodeID
  sharesTrigger := l.entryNodeID ≠ "" ∧ (l.seed.lookup "trigger").isNone ∧
    (l.seed.lookup l.entryNodeID).isSome
  startedAt := svc.now w

/-- The queue loop before its first pass. -/
def initialConfig (l : Launch) (w : W) : Config (Progress W) Work where
  queue := [⟨l.entryNodeID, "in"⟩]
  count := 0
  state :=
    { run := ⟨initialOutputs l, ∅, w⟩, nodes := [], failed := false, firstErr := "",
      firstNarrated := false }

/-- The reason a graph is refused before its first node, and whether that is kept in the
history. -/
def refusal (svc : Services W) (reg : BlockRegistry W) (g : Graph) (w : W) :
    Option (String × Bool) :=
  let dataTypes := validateGraphDataTypes g reg
  let destinations := issueSentences g reg
    (validateGraphDestinations g reg (svc.destinations.map fun find => find w))
  let retention := issueSentences g reg (validateGraphRetention g)
  if dataTypes ≠ [] then
    some ("data type validation failed: " ++ "; ".intercalate dataTypes, false)
  else if destinations ≠ [] then
    some ("destination validation failed: " ++ " ".intercalate destinations, true)
  else if retention ≠ [] then
    some ("validation failed: " ++ " ".intercalate retention, true)
  else none

/-- The outcome of a run. -/
structure RunOutput (W : Type) where
  record : RunRecord
  narrated : Bool
  /-- The record was added to the history. -/
  recorded : Bool
  world : W

/-- A record of a run that executed nothing. -/
def emptyRecord (svc : Services W) (l : Launch) (runID status error : String) (w : W) :
    RunRecord :=
  { id := runID, graphID := l.graph.id, graphName := l.graph.name, trigger := l.label,
    startedAt := svc.unixMilli w, finishedAt := svc.unixMilli w, status := status,
    error := error, nodes := [] }

/-- The record of a run whose queue loop ended. -/
def finishRun (svc : Services W) (l : Launch) (runID : String) (w : W)
    (c : Config (Progress W) Work) (stopped : Bool) : RunOutput W :=
  let (failed, error, narrated) := verdict c stopped
  { record :=
      { id := runID, graphID := l.graph.id, graphName := l.graph.name, trigger := l.label,
        startedAt := svc.unixMilli w, finishedAt := svc.unixMilli c.state.run.world,
        status := if failed then "failed" else "success",
        error := if failed then error else "", nodes := c.state.nodes },
    narrated := narrated, recorded := true, world := c.state.run.world }

/-- `executeGraph`, for a run that begins in the world `w`; `running` tells whether another
run of the graph is active. -/
def executeGraph (svc : Services W) (reg : BlockRegistry W) (running : Bool) (runID : String)
    (l : Launch) (w : W) : Outcome (RunOutput W) :=
  if running then .ok ⟨emptyRecord svc l runID "skipped" "" w, false, false, w⟩
  else match refusal svc reg l.graph w with
    | some (error, recorded) =>
      .ok ⟨emptyRecord svc l runID "failed" error w, false, recorded, w⟩
    | none => do
      let (c, stopped) ← loop (known l.graph) (turn (runEnv svc reg l w)) maxNodesPerRun
        (initialConfig l w)
      return finishRun svc l runID w c stopped

end

/-! ## What the calls of a pull share

All calls of one outermost pull work on the same outputs and on one set of the names that are being
evaluated, which each of them leaves by a deferred delete. Beside both, the executions they make
are listed in their order, each with whether it recorded an output. -/

/-- An execution of a pure-data node. -/
structure Execution where
  nodeID : String
  /-- It gave an output, which is what marks the node as done. -/
  recorded : Bool
  deriving DecidableEq, Repr

/-- The state that the calls share. -/
structure Pull (W : Type) where
  run : RunState W
  /-- The keys of `visiting`. -/
  visiting : List String
  executed : List Execution

section

variable {W : Type}

namespace Pull

/-- `defer delete(visiting, nodeID)`. -/
def leave (p : Pull W) (nodeID : String) : Pull W :=
  { p with visiting := p.visiting.erase nodeID }

/-- The part of `ensureDataOutputs` after its inputs have been pulled. -/
def evaluate (env : RunEnv W) (node : Node) (exec : ExecFunc W) (p : Pull W) :
    Pull W × Outcome Unit :=
  match execContext env p.run node with
  | .err m => (p, .err m)
  | .panic r => (p, .panic r)
  | .ok ctx =>
    match exec ctx p.run.world with
    | .err m => ({ p with executed := p.executed ++ [⟨node.id, false⟩] }, .err m)
    | .panic r => ({ p with executed := p.executed ++ [⟨node.id, false⟩] }, .panic r)
    | .ok r =>
      ({ p with
          run := { outputs := if r.dataOut.isEmpty then p.run.outputs
                     else p.run.outputs.insert node.id r.dataOut,
                   custom := r.custom, world := r.world }
          executed := p.executed ++ [⟨node.id, !r.dataOut.isEmpty⟩] }, .ok ())

/-- What follows a call that returns; a panic skips it. -/
def onReturn (ended : Option (Pull W × Outcome Unit))
    (next : Pull W → Option (Pull W × Outcome Unit)) : Option (Pull W × Outcome Unit) :=
  match ended with
  | some (p, .ok _) => next p
  | ended => ended

/-- The loop of `pullDataDependencies`. -/
def pullEdges (ensure : String → Pull W → Option (Pull W × Outcome Unit)) (nodeID : String) :
    List Edge → Pull W → Option (Pull W × Outcome Unit)
  | [], p => some (p, .ok ())
  | e :: es, p =>
    if e.kind = "data" ∧ e.target = nodeID then
      onReturn (ensure e.source p) (pullEdges ensure nodeID es)
    else pullEdges ensure nodeID es p

/-- `ensureDataOutputs`; `none` when the calls nest deeper than the budget. -/
def ensureDataOutputs (env : RunEnv W) : Nat → String → Pull W → Option (Pull W × Outcome Unit)
  | 0, _, _ => none
  | n + 1, nodeID, p =>
    if (p.run.outputs.lookup nodeID).isSome ∨ nodeID ∈ p.visiting then some (p, .ok ())
    else match env.graph.nodeByID nodeID with
      | none => some (p, .ok ())
      | some node => match env.registry.lookup node.type with
        | none => some (p, .ok ())
        | some entry =>
          if isPureData entry.blockDef then
            let pulled := pullEdges (ensureDataOutputs env n) nodeID env.graph.edges
              { p with visiting := nodeID :: p.visiting }
            -- the deferred call runs however the evaluation ends
            (onReturn pulled fun p => some (p.evaluate env node entry.exec)).map
              fun ended => (ended.1.leave nodeID, ended.2)
          else some (p, .ok ())

/-- `pullDataDependencies`. -/
def pullDataDependencies (env : RunEnv W) (n : Nat) (nodeID : String) (p : Pull W) :
    Option (Pull W × Outcome Unit) :=
  pullEdges (ensureDataOutputs env n) nodeID env.graph.edges p

end Pull

end

end Konnekt.Scheduler
