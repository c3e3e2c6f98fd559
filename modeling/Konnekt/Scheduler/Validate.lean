import Konnekt.Scheduler.Models

/-!
# Checks a graph passes before it runs

Three checks are made before the first node of a run: the types of the data
wires, the destinations of uploads and the number of snapshots to keep.
-/

namespace Konnekt.Scheduler

open Go

/-! ## Data types -/

/-- `resolvedDataType`. -/
inductive ResolvedDataType where
  | string | number | bool | unresolved
  deriving DecidableEq

namespace ResolvedDataType

def name : ResolvedDataType → String
  | string => "string"
  | number => "number"
  | bool => "bool"
  | unresolved => "unresolved"

end ResolvedDataType

/-- `dataTypeAliases` and the fallback for every other name. -/
def normalizeDataType (raw : String) : ResolvedDataType :=
  if raw = "string" ∨ raw = "String" then .string
  else if raw = "number" ∨ raw = "Float" ∨ raw = "Integer" then .number
  else if raw = "bool" ∨ raw = "Boolean" then .bool
  else .unresolved

/-- A string in a configuration; anything else reads as the empty string. -/
def configString (config : GoMap Value) (key : String) : String :=
  match config.lookup key with
  | some (.str s) => s
  | _ => ""

def resolveDataPortType (blockDef : BlockDef) (portID : String) (isOutput : Bool)
    (config : GoMap Value) : ResolvedDataType :=
  let ports := if isOutput then blockDef.dataOutputs else blockDef.dataInputs
  match ports.find? (·.id == portID) with
  | none => .unresolved
  | some p =>
    if p.type = "auto" then normalizeDataType (configString config "type")
    else normalizeDataType p.type

def dataTypesCompatible (src tgt : ResolvedDataType) : Bool :=
  src == .unresolved || tgt == .unresolved || src == tgt || tgt == .string ||
    (src == .bool && tgt == .number)

section

variable {W : Type}

/-- The issue with one edge, if it wires incompatible types. -/
def dataTypeIssue (g : Graph) (reg : BlockRegistry W) (e : Edge) : Option String :=
  if e.kind = "data" then do
    let srcNode ← g.nodeByID e.source
    let tgtNode ← g.nodeByID e.target
    let srcEntry ← reg.lookup srcNode.type
    let tgtEntry ← reg.lookup tgtNode.type
    let srcType := resolveDataPortType srcEntry.blockDef e.sourcePort true srcNode.config
    let tgtType := resolveDataPortType tgtEntry.blockDef e.targetPort false tgtNode.config
    if dataTypesCompatible srcType tgtType then none
    else some ("data edge " ++ e.id ++ ": " ++ srcType.name ++ " output -> " ++ tgtType.name ++
      " input (node " ++ srcNode.id ++ "." ++ e.sourcePort ++ " -> " ++ tgtNode.id ++ "." ++
      e.targetPort ++ ")")
  else none

def validateGraphDataTypes (g : Graph) (reg : BlockRegistry W) : List String :=
  g.edges.filterMap (dataTypeIssue g reg)

/-! ## Destinations -/

/-- `GraphWarning`. -/
structure GraphWarning where
  nodeID : String
  text : String
  deriving DecidableEq

def destinationFieldType : String := "destination"

/-- The issue with one destination field of a node. -/
def destinationIssue (dests : Option (String → Except String Bool)) (n : Node)
    (f : ConfigField) : Option GraphWarning :=
  if f.type = destinationFieldType then
    let name := trimSpace (configString n.config f.key)
    if name = "" then
      if f.required then some ⟨n.id, "no destination chosen."⟩ else none
    else match dests with
      | none => some ⟨n.id, "destinations are not available."⟩
      | some find => match find name with
        | .error _ => some ⟨n.id, "the saved destinations could not be read."⟩
        | .ok false => some ⟨n.id, "the destination " ++ quote name ++ " does not exist. " ++
            "It was deleted or renamed in Settings, or this graph came from another install."⟩
        | .ok true => none
  else none

def validateGraphDestinations (g : Graph) (reg : BlockRegistry W)
    (dests : Option (String → Except String Bool)) : List GraphWarning :=
  g.nodes.flatMap fun n => match reg.lookup n.type with
    | none => []
    | some entry => entry.blockDef.configSchema.filterMap (destinationIssue dests n)

/-! ## Retention -/

def dhPublishBlockID : String := "action.dhPublish"

def dhDefaultKeep : Int := 3

/-- `parseDHKeep`. -/
def parseDHKeep (v : Value) : Except String Int :=
  let v : Value := match v with
    | .str s => .str (trimSpace s)
    | v => v
  let bad := "keep must be a whole number of at least 1, not " ++ v.sprintV
  let counted (f : Float64) : Except String Int := match f with
    | .fin q => if (q.floor : ℚ) = q ∧ 1 ≤ q ∧ q ≤ 2147483647 then .ok q.floor else .error bad
    | _ => .error bad
  match v with
  | .nil | .str "" => .ok dhDefaultKeep
  | .num f => counted f
  | .int n | .int64 n => counted (.fin n)
  | .str s => match parseFloat s with
    | .ok f => counted f
    | .error _ => .error bad
  | _ => .error bad

/-- The issue with one node's `keep` value. A template is judged when the run resolves it. -/
def retentionIssue (n : Node) : Option GraphWarning :=
  if n.type = dhPublishBlockID then
    let s := (configString n.config "keep").toList
    if ['{', '{'] <:+: s ∨ '@' ∈ s then none
    else match parseDHKeep ((n.config.lookup "keep").getD .nil) with
      | .ok _ => none
      | .error m => some ⟨n.id, m ++ "."⟩
  else none

def validateGraphRetention (g : Graph) : List GraphWarning := g.nodes.filterMap retentionIssue

/-- `issueSentences`: warnings as a run's error text carries them. -/
def issueSentences (g : Graph) (reg : BlockRegistry W) (issues : List GraphWarning) :
    List String :=
  issues.map fun w =>
    if w.nodeID = "" then w.text
    else match reg.lookup (((g.nodeByID w.nodeID).map Node.type).getD "") with
      | some entry => entry.blockDef.label ++ " (" ++ w.nodeID ++ "): " ++ w.text
      | none => "Node " ++ w.nodeID ++ ": " ++ w.text

end

end Konnekt.Scheduler
