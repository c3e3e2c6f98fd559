import Konnekt.Js.Json
import Konnekt.Scheduler.Models

/-!
# Graphs on the editor's canvas

A canvas holds nodes and edges whose ends are handles; a handle carries the kind of
its port in front of the port's id. Saving turns handles back into ports.
-/

namespace Konnekt.Editor

open Go Js Scheduler

/-! ## Port types in the editor

The editor settles the type of a data port by looking its name up in an object
literal, so a name is also found among the properties every object inherits. -/

/-- `ResolvedType`, and the inherited properties a lookup can give instead of one. -/
inductive ResolvedType where
  | string | number | bool | unresolved
  | inherited (name : String)
  deriving DecidableEq

/-- The own entries of `TYPE_ALIASES`. -/
def typeAliases : List (String × ResolvedType) :=
  [("string", .string), ("String", .string), ("number", .number), ("Float", .number),
    ("Integer", .number), ("bool", .bool), ("Boolean", .bool)]

/-- `TYPE_ALIASES[key] ?? 'unresolved'`. -/
def lookupAlias (key : String) : ResolvedType :=
  match typeAliases.lookup key with
  | some type => type
  | none => if key ∈ objectPrototype then .inherited key else .unresolved

/-- `normalizeType`; `none` when the value has no text to look up. -/
def normalizeType : Option Json → Option ResolvedType
  | none => some .unresolved
  | some raw => if raw.falsy then some .unresolved else raw.key.map lookupAlias

inductive Side where
  | input | output
  deriving DecidableEq

def resolveDataPortType (blockDef : Option BlockDef) (portId : String) (side : Side)
    (config : Option (GoMap Json)) : Option ResolvedType :=
  let ports := blockDef.map fun d => if side = .input then d.dataInputs else d.dataOutputs
  match ports.bind fun ps => ps.find? (·.id == portId) with
  | none => some .unresolved
  | some port =>
    if port.type = "auto" then normalizeType (config.bind (·.lookup "type"))
    else normalizeType (some (.str port.type))

def portTypesCompatible (src tgt : ResolvedType) : Bool :=
  src == .unresolved || tgt == .unresolved || src == tgt || tgt == .string ||
    (src == .bool && tgt == .number)

/-! ## The canvas -/

/-- A node of the canvas with what its `data` holds. -/
structure FlowNode where
  id : String
  blockType : String
  config : GoMap Json

/-- An edge of the canvas; `kind` is that of its `data`. -/
structure FlowEdge where
  id : String
  source : String
  target : String
  sourceHandle : Option String
  targetHandle : Option String
  kind : Option String

/-- `handle.replace(/^data:/, '')`. -/
def stripData (handle : String) : String := trimPrefix handle "data:"

/-- `handle.replace(/^(ctrl|data):/, '')`. -/
def stripKind (handle : String) : String :=
  match cutPrefix "ctrl:" handle with
  | some port => port
  | none => stripData handle

/-- `handle.startsWith('data:')`. -/
def isDataHandle (handle : String) : Bool := (cutPrefix "data:" handle).isSome

/-! ## Loading and saving -/

/-- An edge of a graph as `graphToFlow` puts it on the canvas. -/
def flowEdge (e : Edge) : FlowEdge :=
  let pre := if e.kind = "data" then "data" else "ctrl"
  { id := e.id
    source := e.source
    target := e.target
    sourceHandle := some (pre ++ ":" ++ e.sourcePort)
    targetHandle := some (pre ++ ":" ++ e.targetPort)
    kind := some e.kind }

/-- The edges of a graph on the canvas. -/
def flowEdges (g : Graph) : List FlowEdge := g.edges.map flowEdge

/-- What `flowToGraph` keeps of the graph it was opened from. -/
structure GraphMeta where
  id : String
  name : String
  enabled : Bool
  createdAt : Int

def savedNode (n : FlowNode) : Scheduler.Node where
  id := n.id
  type := n.blockType
  config := n.config.mapVals Json.toValue

def savedEdge (e : FlowEdge) : Edge :=
  let srcH := e.sourceHandle.getD ""
  let tgtH := e.targetHandle.getD ""
  { id := e.id
    kind := if isDataHandle srcH then "data" else "control"
    source := e.source
    sourcePort := stripKind srcH
    target := e.target
    targetPort := stripKind tgtH }

/-- `flowToGraph` at the time `now`. The owner of a graph is not the editor's to set. -/
def flowToGraph (info : GraphMeta) (now : Int) (nodes : List FlowNode) (edges : List FlowEdge) :
    Graph where
  id := info.id
  name := info.name
  serverID := ""
  enabled := info.enabled
  nodes := nodes.map savedNode
  edges := edges.map savedEdge
  createdAt := info.createdAt
  updatedAt := now

/-! ## Wiring -/

/-- `isValidConnection`; `none` when the type of an end has no text to look up. -/
def isValidConnection (edge : FlowEdge) (nodes : List FlowNode)
    (defMap : String → Option BlockDef) : Option Bool := do
  if edge.source = edge.target then return false
  let srcHandle := edge.sourceHandle.getD ""
  let tgtHandle := edge.targetHandle.getD ""
  let isData := isDataHandle srcHandle
  if isData ≠ isDataHandle tgtHandle then return false
  if !isData then return true
  let srcData := nodes.find? (·.id == edge.source)
  let tgtData := nodes.find? (·.id == edge.target)
  let srcType ← resolveDataPortType (srcData.bind fun n => defMap n.blockType)
    (stripData srcHandle) .output (srcData.map FlowNode.config)
  let tgtType ← resolveDataPortType (tgtData.bind fun n => defMap n.blockType)
    (stripData tgtHandle) .input (tgtData.map FlowNode.config)
  return portTypesCompatible srcType tgtType

end Konnekt.Editor
