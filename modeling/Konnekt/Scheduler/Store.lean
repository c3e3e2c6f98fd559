import Konnekt.Go.Map
import Konnekt.Scheduler.Triggers

/-!
# The graph store

The list of graphs of all servers and the calls that change it. Each call is made
for one server; a graph without an owner answers to whichever server is active.
Fresh ids and the decoder of imported text are parameters.
-/

namespace Konnekt.Scheduler

open Go

section

variable {W : Type} (svc : Services W) (w : W)

/-- `SaveGraph`: the graph, or the refusal, and the list afterwards. -/
def saveGraph (newID serverID : String) (g : Graph) (graphs : List Graph) :
    Except String Graph × List Graph :=
  let now := svc.unixMilli w
  let g := if g.id = "" then { g with id := newID, createdAt := now } else g
  let g := { g with updatedAt := now, serverID := serverID }
  match graphs.find? (·.id == g.id) with
  | some existing =>
    if graphAnswersTo svc w existing serverID then
      (.ok g, updateFirst (·.id == g.id) (fun _ => g) graphs)
    else (.error ("graph " ++ quote g.id ++ " not found"), graphs)
  | none =>
    let g := if g.createdAt = 0 then { g with createdAt := now } else g
    (.ok g, graphs ++ [g])

/-- `DeleteGraph`. -/
def deleteGraph (serverID id : String) (graphs : List Graph) : List Graph :=
  graphs.filter fun g => g.id != id || !graphAnswersTo svc w g serverID

/-- `SetGraphEnabled`. -/
def setGraphEnabled (serverID id : String) (enabled : Bool) (graphs : List Graph) : List Graph :=
  updateFirst (fun g => g.id == id && graphAnswersTo svc w g serverID)
    (fun g => { g with enabled := enabled, updatedAt := svc.unixMilli w }) graphs

def maxImportBytes : Nat := 1048576

/-- `ImportGraphJSON`, with `unmarshal` for the decoder. -/
def importGraphJSON (reg : BlockRegistry W) (unmarshal : String → Except String Graph)
    (newID serverID raw : String) (graphs : List Graph) : Except String Graph × List Graph :=
  if maxImportBytes < raw.utf8ByteSize then
    (.error ("graph JSON is " ++ toString raw.utf8ByteSize ++ " bytes, over the " ++
      toString maxImportBytes ++ " byte import limit"), graphs)
  else match unmarshal raw with
    | .error e => (.error ("parse graph JSON: " ++ e), graphs)
    | .ok g => match g.nodes.find? fun n => (reg.lookup n.type).isNone with
      | some n =>
        (.error ("node " ++ quote n.id ++ " uses unknown block " ++ quote n.type), graphs)
      | none =>
        let issues := validateGraphDataTypes g reg
        if issues ≠ [] then
          (.error ("data type validation failed: " ++ "; ".intercalate issues), graphs)
        else saveGraph svc w newID serverID { g with id := newID, createdAt := 0 } graphs

end

/-! ## Calls -/

/-- A call of the store made for a server, with the id it would draw. -/
inductive StoreCall where
  | save (newID serverID : String) (g : Graph)
  | delete (serverID id : String)
  | setEnabled (serverID id : String) (enabled : Bool)
  | importJSON (newID serverID raw : String)

namespace StoreCall

def serverID : StoreCall → String
  | save _ serverID _ | delete serverID _ | setEnabled serverID _ _ | importJSON _ serverID _ =>
    serverID

/-- The effect of a call: its error, if it is refused, and the list afterwards. -/
def perform {W : Type} (svc : Services W) (w : W) (reg : BlockRegistry W)
    (unmarshal : String → Except String Graph) (graphs : List Graph) :
    StoreCall → Except String Unit × List Graph
  | save newID serverID g =>
    let (r, graphs) := saveGraph svc w newID serverID g graphs
    (r.map fun _ => (), graphs)
  | delete serverID id => (.ok (), deleteGraph svc w serverID id graphs)
  | setEnabled serverID id enabled => (.ok (), setGraphEnabled svc w serverID id enabled graphs)
  | importJSON newID serverID raw =>
    let (r, graphs) := importGraphJSON svc w reg unmarshal newID serverID raw graphs
    (r.map fun _ => (), graphs)

end StoreCall

end Konnekt.Scheduler
