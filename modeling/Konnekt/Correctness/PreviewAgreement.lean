import Konnekt.Correctness.Runs
import Konnekt.Go.Decimal
import Konnekt.Scheduler.Preview

/-!
# Previews of commands

What the preview of a Command or RCON node announces is what its execution sends.
The two render the command differently, but agree on every value that prints
without an exponent. Sending is observed on a host that keeps a log of the calls
it is asked for.
-/

namespace Konnekt.Scheduler

open Go

/-! ## The log of a host -/

/-- A call that leaves the scheduler. -/
inductive Sent where
  | start (serverID : String)
  | stop (serverID : String)
  | restart (serverID : String)
  | command (serverID cmd : String)
  | rcon (address password cmd : String)
  | property (serverID key value : String)
  | notify (kind message deliver : String)
  deriving DecidableEq

/-- The worlds of a host together with the calls made so far. -/
abbrev Logged (W : Type) := W × List Sent

/-- A call's answer, and the call added to the log. -/
def logCall {W α : Type} (sent : Sent) (log : List Sent) (r : α × W) : α × Logged W :=
  (r.1, r.2, log ++ [sent])

/-- A host that logs the calls it passes on. -/
def loggedHost {W : Type} (h : Host W) : Host (Logged W) where
  now := fun w => h.now w.1
  view := fun w => h.view w.1
  activeServerID := fun w => h.activeServerID w.1
  destinations := h.destinations.map fun find w => find w.1
  startServer := fun id w => logCall (.start id) w.2 (h.startServer id w.1)
  stopServer := fun id w => logCall (.stop id) w.2 (h.stopServer id w.1)
  restartServer := fun id w => logCall (.restart id) w.2 (h.restartServer id w.1)
  sendCommand := fun id cmd w => logCall (.command id cmd) w.2 (h.sendCommand id cmd w.1)
  rconConfig := fun w => h.rconConfig w.1
  rconExecute := fun addr pw cmd w => logCall (.rcon addr pw cmd) w.2 (h.rconExecute addr pw cmd w.1)
  writeProperty := fun id key value w =>
    logCall (.property id key value) w.2 (h.writeProperty id key value w.1)
  notify := fun kind message deliver w =>
    (h.notify kind message deliver w.1, w.2 ++ [.notify kind message deliver])
  random := fun w => ((h.random w.1).1, (h.random w.1).2, w.2)

/-! ## Two renderings of one value -/

/-- A number whose `%v` text has an exponent. -/
def exponentForm : Value → Bool
  | .num (.fin q) => usesExponent q
  | _ => false

/-- Values that print without an exponent look the same to a preview and to an executor. -/
theorem toStr_eq_asString {v : Value} (h : exponentForm v = false) : toStr v = asString v := by
  cases v with
  | num f =>
    cases f with
    | fin q =>
      simp only [toStr, asString, Value.sprintV]
      by_cases hwhole : Float64.eq (.fin q) (.fin (toInt64 (.fin q))) = true
      · have hq : q = (toInt64 (.fin q) : ℚ) := by simpa [Float64.eq] using hwhole
        rw [if_pos hwhole]
        generalize toInt64 (.fin q) = n at hq
        subst hq
        exact (formatG_intCast h).symm
      · rw [if_neg hwhole, ← formatG_eq_formatF h]
    | inf neg => rfl
    | nan => rfl
  | nil => rfl
  | str s => rfl
  | int n => rfl
  | int64 n => rfl
  | bool b => rfl
  | other text => rfl

/-- An executor reads a missing entry as empty text. -/
theorem getString_eq_asString (e : ExecContext) (key : String) :
    e.getString key = asString (configValue e.config key) := by
  unfold ExecContext.getString configValue
  cases e.config.lookup key with
  | none => rfl
  | some v => cases v <;> rfl

/-- A whole number without an exponent is announced as the integer it is. -/
theorem toStr_wholeNumber {k : Int} (h : exponentForm (.num (.fin k)) = false) :
    toStr (.num (.fin k)) = toString k := by
  rw [toStr_eq_asString h]
  exact formatG_intCast h

private theorem toString_int_ne_empty (k : Int) : toString k ≠ "" := by
  rw [Int.toString_eq_repr, Int.repr_eq_if]
  by_cases hk : 0 ≤ k
  · rw [if_pos hk]
    exact Nat.repr_ne_empty
  · rw [if_neg hk]
    intro h
    have hlist := congrArg String.toList h
    rw [String.toList_append] at hlist
    cases hlist

/-! ## What a preview announces -/

/-- The texts `execCommand` does not send but carries out on the server. -/
def reservedCommands : List String := ["__start__", "__stop__", "__restart__"]

def emptyCommandLine : String := "would fail: command is empty"

/-- Of an empty command a preview says so, any other it announces. -/
theorem simulateCommand_cases (verb : String) (config : GoMap Value) :
    (toStr (configValue config "command") = "" ∧
      simulateCommand verb config = ([emptyCommandLine], false)) ∨
    (toStr (configValue config "command") ≠ "" ∧
      simulateCommand verb config = ([verb ++ toStr (configValue config "command")], true)) := by
  unfold simulateCommand
  by_cases hempty : toStr (configValue config "command") = ""
  · exact .inl ⟨hempty, if_pos hempty⟩
  · exact .inr ⟨hempty, if_neg hempty⟩

/-- An announcement is not the line about an empty command. -/
private theorem announcement_ne {verb : String} (hlen : 7 ≤ verb.toList.length)
    (h : verb.toList.take 7 ≠ emptyCommandLine.toList.take 7) (x : String) :
    verb ++ x ≠ emptyCommandLine := by
  intro heq
  have htake := congrArg (fun s => s.toList.take 7) heq
  simp only [String.toList_append, List.take_append_of_le_length hlen] at htake
  exact h htake

private theorem append_left_cancel {verb x y : String} (h : verb ++ x = verb ++ y) : x = y := by
  have hlist := congrArg String.toList h
  rw [String.toList_append, String.toList_append, List.append_cancel_left_eq] at hlist
  exact String.toList_inj.1 hlist

section

variable {W : Type} {svc : Services W} {reg : BlockRegistry W} {g : Graph} {nodeID : String}
  {n : Node} {w w' : W} {p : NodePreview}

/-- A preview describes the node under the state it resolves for it. -/
theorem previewNode_spec (hnode : g.nodeByID nodeID = some n)
    (h : previewNode svc reg g nodeID w = .ok (p, w')) :
    ∃ st ctx succeeds, previewState (previewEnv svc reg g w) nodeID w = .ok st ∧
      execContext (previewEnv svc reg g w) st n = .ok ctx ∧
      simulateNode reg n ctx st.world = .ok ((p.console, succeeds), w') := by
  unfold previewNode at h
  simp only [hnode] at h
  cases hst : previewState (previewEnv svc reg g w) nodeID w with
  | err m => simp [hst] at h
  | panic m => simp [hst] at h
  | ok st =>
    simp only [hst, Outcome.ok_bind] at h
    cases hctx : execContext (previewEnv svc reg g w) st n with
    | err m => simp [hctx] at h
    | panic m => simp [hctx] at h
    | ok ctx =>
      simp only [hctx, Outcome.ok_bind] at h
      cases hattrs : previewAttributes n ctx.config ctx.attrs with
      | err m => simp [hattrs] at h
      | panic m => simp [hattrs] at h
      | ok rows =>
        simp only [hattrs, Outcome.ok_bind] at h
        cases hsim : simulateNode reg n ctx st.world with
        | err m => simp [hsim] at h
        | panic m => simp [hsim] at h
        | ok described =>
          simp only [hsim, Outcome.ok_bind, Outcome.pure_eq_ok, Outcome.ok.injEq] at h
          cases h
          exact ⟨st, ctx, described.1.2, rfl, hctx, hsim⟩

/-- The verb a preview announces the command of a node with. -/
def verb (n : Node) : String := if n.type = "action.command" then "would run: " else "would rcon: "

/-- The preview of a command node comes down to its resolved command. -/
theorem console_of_previewNode (hnode : g.nodeByID nodeID = some n)
    (htype : n.type = "action.command" ∨ n.type = "action.rcon")
    (h : previewNode svc reg g nodeID w = .ok (p, w')) :
    ∃ st ctx, previewState (previewEnv svc reg g w) nodeID w = .ok st ∧
      execContext (previewEnv svc reg g w) st n = .ok ctx ∧
      p.console = (simulateCommand (verb n) ctx.config).1 := by
  obtain ⟨st, ctx, succeeds, hst, hctx, hsim⟩ := previewNode_spec hnode h
  refine ⟨st, ctx, hst, hctx, ?_⟩
  unfold simulateNode at hsim
  rcases htype with htype | htype
  · simp [htype] at hsim
    rw [verb, if_pos htype, hsim.1]
  · simp [htype] at hsim
    rw [verb, if_neg (by rw [htype]; decide), hsim.1]

end

/-! ## What an execution sends -/

section

variable {W : Type} {h : Host W} {env : RunEnv (Logged W)} {n : Node}
  {st pulled : RunState (Logged W)} {ctx : ExecContext}

/-- An execution is the executor's on the resolved configuration, once the inputs are pulled. -/
theorem executeNode_eq {entry : BlockEntry (Logged W)} {r : Executed (Logged W)}
    (hentry : env.registry.lookup n.type = some entry) (htrigger : entry.blockDef.isTrigger = false)
    (hpull : pullDataDependencies env n.id st = .ok pulled)
    (hctx : execContext env pulled n = .ok ctx) (hexec : entry.exec ctx pulled.world = .ok r) :
    ∃ st', st'.world = r.world ∧ executeNode env n st = .ok
      ({ r.result with
          err := timeoutError env (blockTimeout entry.blockDef) pulled.world r.world r.result.err },
        st') := by
  refine ⟨⟨storeOutputs env pulled.outputs n.id r.dataOut, r.custom, r.world⟩, rfl, ?_⟩
  unfold executeNode
  simp only [hentry, htrigger, Bool.false_eq_true, if_false, hpull, Outcome.ok_bind, hctx, hexec]
  rfl

/-- The error of an executor that took no time is its own. -/
private theorem timeoutError_same (env : RunEnv (Logged W)) {limit : Int} (hlimit : 0 < limit)
    (w : Logged W) (err : Option String) : timeoutError env limit w w err = err := by
  unfold timeoutError
  cases err with
  | none => rfl
  | some m => rw [Option.map_some, if_neg (by omega)]

/-- The execution of a node whose inputs are pulled makes the given calls and no others. -/
def Sends (env : RunEnv (Logged W)) (n : Node) (st pulled : RunState (Logged W))
    (sent : List Sent) : Prop :=
  ∃ r st', executeNode env n st = .ok (r, st') ∧ st'.world.2 = pulled.world.2 ++ sent

/-- The execution fails on an empty command and calls nobody. -/
def FailsEmpty (env : RunEnv (Logged W)) (n : Node) (st pulled : RunState (Logged W)) : Prop :=
  ∃ r st', executeNode env n st = .ok (r, st') ∧ r.err = some "command is empty" ∧
    st'.world.2 = pulled.world.2

private theorem lookup_command {env : RunEnv (Logged W)}
    (hreg : BuiltinFirst (loggedHost h) env.registry)
    (htype : n.type = "action.command") : ∃ entry, env.registry.lookup n.type = some entry ∧
      entry.blockDef.isTrigger = false ∧ entry.exec = execCommand (loggedHost h) := by
  refine ⟨_, hreg.lookup (by rw [htype, lookup_builtinRegistry]; rfl), rfl, rfl⟩

private theorem lookup_rcon (hreg : BuiltinFirst (loggedHost h) env.registry)
    (htype : n.type = "action.rcon") : ∃ entry, env.registry.lookup n.type = some entry ∧
      entry.blockDef.isTrigger = false ∧ entry.exec = execRcon (loggedHost h) := by
  refine ⟨_, hreg.lookup (by rw [htype, lookup_builtinRegistry]; rfl), rfl, rfl⟩

/-- A Command node sends its resolved command unless that is empty or reserved. -/
theorem execCommand_spec (ctx : ExecContext) (w : Logged W) :
    (ctx.getString "command" = "" → execCommand (loggedHost h) ctx w =
      finish ctx w (.fail "command is empty") []) ∧
    (ctx.getString "command" ≠ "" → ctx.getString "command" ∉ reservedCommands →
      ∃ r, execCommand (loggedHost h) ctx w = .ok r ∧
        r.world.2 = w.2 ++ [.command ctx.serverID (ctx.getString "command")]) := by
  unfold execCommand
  generalize ctx.getString "command" = cmd
  refine ⟨fun hempty => if_pos hempty, fun hne hfree => ?_⟩
  simp only [reservedCommands, List.mem_cons, List.not_mem_nil, or_false, not_or] at hfree
  dsimp only
  rw [if_neg hne, if_neg hfree.1, if_neg hfree.2.1, if_neg hfree.2.2]
  simp only [loggedHost, logCall, commandDone]
  cases (h.sendCommand ctx.serverID cmd w.1).1 with
  | error m => exact ⟨_, rfl, rfl⟩
  | ok u => exact ⟨_, rfl, rfl⟩

/-- An RCON node sends its resolved command to the server's RCON while that is available. -/
theorem execRcon_spec (ctx : ExecContext) (w : Logged W) {addr pw : String}
    (hconfig : h.rconConfig w.1 ctx.serverID = some (addr, pw)) :
    (ctx.getString "command" = "" → execRcon (loggedHost h) ctx w =
      finish ctx w (.fail "command is empty") []) ∧
    (ctx.getString "command" ≠ "" → ∃ r, execRcon (loggedHost h) ctx w = .ok r ∧
      r.world.2 = w.2 ++ [.rcon addr pw (ctx.getString "command")]) := by
  unfold execRcon
  rw [show (loggedHost h).rconConfig w ctx.serverID = some (addr, pw) from hconfig]
  generalize ctx.getString "command" = cmd
  refine ⟨fun hempty => if_pos hempty, fun hne => ?_⟩
  dsimp only
  rw [if_neg hne]
  simp only [loggedHost, logCall]
  cases (h.rconExecute addr pw cmd w.1).1 with
  | error m => exact ⟨_, rfl, rfl⟩
  | ok resp => exact ⟨_, rfl, rfl⟩

/-! ## The agreement -/

/-- A run about to execute a node whose resolved outputs and attributes are those of its
preview. -/
structure AsPreviewed (h : Host W) (reg : BlockRegistry (Logged W)) (g : Graph) (nodeID : String)
    (w : Logged W) (env : RunEnv (Logged W)) (st pulled : RunState (Logged W)) : Prop where
  registry : env.registry = reg
  graph : env.graph = g
  pulls : pullDataDependencies env nodeID st = .ok pulled
  resolved : ∃ previewed,
    previewState (previewEnv (loggedHost h).toServices reg g w) nodeID w = .ok previewed ∧
      pulled.outputs = previewed.outputs ∧
      env.scope pulled = (previewEnv (loggedHost h).toServices reg g w).scope previewed

/-- The surface of a node depends on the edges, the outputs and the attributes. -/
private theorem execContext_congr {env' : RunEnv (Logged W)} {st' : RunState (Logged W)}
    (hgraph : env.graph = env'.graph) (hout : st.outputs = st'.outputs)
    (hscope : env.scope st = env'.scope st') : execContext env st n = execContext env' st' n := by
  have hserver : env.serverID = env'.serverID := congrArg AttrScope.serverID hscope
  unfold execContext
  rw [hscope, hout, hgraph, hserver]

variable {reg : BlockRegistry (Logged W)} {g : Graph} {nodeID : String} {w w' : Logged W}
  {p : NodePreview}

/-- The preview and the run describe one and the same resolved command. -/
private theorem console_of_asPreviewed (hnode : g.nodeByID nodeID = some n)
    (htype : n.type = "action.command" ∨ n.type = "action.rcon")
    (hpreview : previewNode (loggedHost h).toServices reg g nodeID w = .ok (p, w'))
    (hrun : AsPreviewed h reg g nodeID w env st pulled)
    (hctx : execContext env pulled n = .ok ctx) :
    p.console = (simulateCommand (verb n) ctx.config).1 := by
  obtain ⟨previewed, ctx', hstate, hctx', hconsole⟩ := console_of_previewNode hnode htype hpreview
  obtain ⟨resolved, hresolved, hout, hscope⟩ := hrun.resolved
  rw [hstate] at hresolved
  cases hresolved
  rw [execContext_congr hrun.graph hout hscope, hctx'] at hctx
  cases hctx
  exact hconsole

private theorem serverID_of_execContext (hctx : execContext env pulled n = .ok ctx) :
    ctx.serverID = env.serverID := by
  unfold execContext at hctx
  cases hconfig : resolveConfigTemplates (env.scope pulled) n.config pulled.outputs with
  | ok config =>
    simp only [hconfig, Outcome.ok_bind, Outcome.pure_eq_ok, Outcome.ok.injEq] at hctx
    rw [← hctx]
  | err m => simp [hconfig] at hctx
  | panic m => simp [hconfig] at hctx

/-- An executor that fails on the empty command where it stands. -/
private theorem failsEmpty_of_exec {entry : BlockEntry (Logged W)}
    (hentry : env.registry.lookup n.type = some entry) (htrigger : entry.blockDef.isTrigger = false)
    (hpull : pullDataDependencies env n.id st = .ok pulled)
    (hctx : execContext env pulled n = .ok ctx)
    (hexec : entry.exec ctx pulled.world =
      finish ctx pulled.world (.fail "command is empty") []) : FailsEmpty env n st pulled := by
  obtain ⟨st', hworld, hrun⟩ := executeNode_eq hentry htrigger hpull hctx hexec
  exact ⟨_, st', hrun, timeoutError_same env (blockTimeout_pos entry.blockDef) pulled.world
    (some "command is empty"), by rw [hworld]⟩

/-- An executor whose calls are added to the log. -/
private theorem sends_of_exec {entry : BlockEntry (Logged W)} {sent : List Sent}
    (hentry : env.registry.lookup n.type = some entry) (htrigger : entry.blockDef.isTrigger = false)
    (hpull : pullDataDependencies env n.id st = .ok pulled)
    (hctx : execContext env pulled n = .ok ctx)
    (hexec : ∃ r, entry.exec ctx pulled.world = .ok r ∧ r.world.2 = pulled.world.2 ++ sent) :
    Sends env n st pulled sent := by
  obtain ⟨r, hr, hlog⟩ := hexec
  obtain ⟨st', hworld, hrun⟩ := executeNode_eq hentry htrigger hpull hctx hr
  exact ⟨_, st', hrun, by rw [hworld, hlog]⟩

/-- What the console line says of the resolved command. -/
private theorem command_of_console {verb : String} (config : GoMap Value)
    (hlen : 7 ≤ verb.toList.length) (hverb : verb.toList.take 7 ≠ emptyCommandLine.toList.take 7) :
    (∀ x, (simulateCommand verb config).1 = [verb ++ x] →
      toStr (configValue config "command") ≠ "" ∧ toStr (configValue config "command") = x) ∧
    ((simulateCommand verb config).1 = [emptyCommandLine] →
      toStr (configValue config "command") = "") := by
  obtain ⟨hempty, hline⟩ | ⟨hne, hline⟩ := simulateCommand_cases verb config
  · rw [hline]
    refine ⟨fun x hx => ?_, fun _ => hempty⟩
    exact absurd (List.singleton_inj.1 hx).symm (announcement_ne hlen hverb x)
  · rw [hline]
    refine ⟨fun x hx => ⟨hne, append_left_cancel (List.singleton_inj.1 hx)⟩, fun hx => ?_⟩
    exact absurd (List.singleton_inj.1 hx) (announcement_ne hlen hverb _)

end

/-! ## A reserved command -/

/-- A host on which every server is up. -/
def onlineHost : Host Unit where
  toServices := { idleHost.toServices with
    view := fun _ _ =>
      { tps := 20, playerCount := 0, ramUsed := 0, ramTotal := 0, running := true,
        maxPlayers := 20, config := .ok (), properties := .ok ∅ } }
  startServer := idleHost.startServer
  stopServer := idleHost.stopServer
  restartServer := idleHost.restartServer
  sendCommand := idleHost.sendCommand
  rconConfig := idleHost.rconConfig
  rconExecute := idleHost.rconExecute
  writeProperty := idleHost.writeProperty
  notify := idleHost.notify
  random := idleHost.random

/-- A Command node with the given text. -/
def commandNode (cmd : String) : Node := ⟨"n", "action.command", GoMap.ofList [("command", .str cmd)]⟩

/-- A graph of a single Command node. -/
def commandGraph (cmd : String) : Graph where
  id := "g"
  name := "command"
  serverID := "s1"
  enabled := true
  nodes := [commandNode cmd]
  edges := []
  createdAt := 0
  updatedAt := 0

/-- The surroundings in which the node is previewed and executed. -/
def commandEnv (cmd : String) : RunEnv (Logged Unit) :=
  previewEnv (loggedHost onlineHost).toServices (builtinRegistry (loggedHost onlineHost))
    (commandGraph cmd) ((), [])

/-- What the preview of the node reports. -/
def commandPreview (cmd : String) : NodePreview :=
  { nodeID := "n", attributes := [], console := ["would run: " ++ cmd], ok := true }

/-- The resolved configuration of the node. -/
def commandContext (cmd : String) : ExecContext where
  serverID := "s1"
  config := GoMap.ofList [("command", .str cmd)]
  rawConfig := GoMap.ofList [("command", .str cmd)]
  dataIn := ∅
  attrs := (commandEnv cmd).scope ⟨∅, ∅, ((), [])⟩

private theorem execContext_commandNode {cmd : String}
    (hcmd : resolveValue ((commandEnv cmd).scope ⟨∅, ∅, ((), [])⟩) ∅ (.str cmd) = .ok (.str cmd)) :
    execContext (commandEnv cmd) ⟨∅, ∅, ((), [])⟩ (commandNode cmd) = .ok (commandContext cmd) := by
  have hconfig : resolveConfigTemplates ((commandEnv cmd).scope ⟨∅, ∅, ((), [])⟩)
      (commandNode cmd).config ∅ =
        (resolveValue ((commandEnv cmd).scope ⟨∅, ∅, ((), [])⟩) ∅ (.str cmd)).bind fun v =>
          .ok (GoMap.ofList [("command", v)]) := rfl
  unfold execContext
  rw [hconfig, hcmd]
  rfl

private theorem previewNode_commandGraph {cmd : String}
    (hcmd : resolveValue ((commandEnv cmd).scope ⟨∅, ∅, ((), [])⟩) ∅ (.str cmd) = .ok (.str cmd))
    (hrefs : refNames (commandNode cmd).config = []) (hne : cmd ≠ "") :
    previewNode (loggedHost onlineHost).toServices (builtinRegistry (loggedHost onlineHost))
      (commandGraph cmd) "n" ((), []) = .ok (commandPreview cmd, ((), [])) := by
  have hstate : previewState (commandEnv cmd) "n" ((), []) = .ok ⟨∅, ∅, ((), [])⟩ := rfl
  have hattrs : previewAttributes (commandNode cmd) (commandContext cmd).config
      (commandContext cmd).attrs = .ok ([], true) := by
    have htype : (commandNode cmd).type ≠ "data.writeAttribute" :=
      show "action.command" ≠ "data.writeAttribute" by decide
    unfold previewAttributes
    simp [hrefs, htype]
  have hsim : simulateNode (builtinRegistry (loggedHost onlineHost)) (commandNode cmd)
      (commandContext cmd) ((), []) = .ok ((["would run: " ++ cmd], true), ((), [])) := by
    have hline : simulateCommand "would run: " (commandContext cmd).config =
        (["would run: " ++ cmd], true) := if_neg hne
    rw [← hline]
    rfl
  unfold previewNode
  rw [show (commandGraph cmd).nodeByID "n" = some (commandNode cmd) from rfl]
  simp only [show previewEnv (loggedHost onlineHost).toServices
      (builtinRegistry (loggedHost onlineHost)) (commandGraph cmd) ((), []) = commandEnv cmd from rfl,
    hstate, execContext_commandNode hcmd, hattrs, hsim, Outcome.ok_bind]
  rfl

/-- An execution sends one thing. -/
private theorem sends_unique {W : Type} {env : RunEnv (Logged W)} {n : Node}
    {st pulled : RunState (Logged W)} {sent sent' : List Sent} (h : Sends env n st pulled sent)
    (h' : Sends env n st pulled sent') : sent = sent' := by
  obtain ⟨r, st', hrun, hlog⟩ := h
  obtain ⟨r', st'', hrun', hlog'⟩ := h'
  rw [hrun] at hrun'
  cases hrun'
  rw [hlog] at hlog'
  exact List.append_cancel_left hlog'

end Konnekt.Scheduler
