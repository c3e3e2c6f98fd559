import Konnekt.Editor.GraphMapping
import Konnekt.Js.Stringify

/-!
# Saving a graph and telling whether it was edited

A graph goes onto the canvas and back with its positions and corners, as the classes of the
binding hold them. A signature of what a save persists is compared with that of the last
save; it is put together from the canvas once more.
-/

namespace Konnekt.Editor

open Go Js Scheduler

/-! ## Graphs and canvases -/

/-- `models.Position`. -/
structure Point where
  x : Float64
  y : Float64
  deriving DecidableEq, Repr

/-- A point as a plain object. -/
def Point.json (p : Point) : Json := .obj [("x", .num p.x), ("y", .num p.y)]

/-- `models.Node`; a configuration or a position may be missing from what the backend sends. -/
structure ModelNode where
  id : String
  type : String
  config : Option (List (String × Json))
  position : Option Point

/-- `models.Edge`. -/
structure ModelEdge where
  id : String
  kind : String
  source : String
  sourcePort : String
  target : String
  targetPort : String
  waypoints : Option (List Point)

/-- `models.Graph`. -/
structure ModelGraph where
  id : String
  name : String
  serverId : Option String
  enabled : Bool
  nodes : Option (List ModelNode)
  edges : Option (List ModelEdge)
  createdAt : Int
  updatedAt : Int

/-- `BlockFlowNode`, without its label. -/
structure BlockFlowNode where
  id : String
  position : Point
  blockType : String
  config : List (String × Json)

/-- An edge of the canvas with its untyped `data`. -/
structure WireEdge where
  id : String
  source : String
  target : String
  sourceHandle : Option String
  targetHandle : Option String
  data : Option Json

/-! ## Corners -/

/-- A property of a value, where it has one. -/
def jsonField (name : String) : Json → Option Json
  | .obj fields => fields.lookup name
  | _ => none

/-- A pair of finite numbers. -/
def finitePoint (p : Json) : Option Point :=
  match jsonField "x" p, jsonField "y" p with
  | some (.num (.fin x)), some (.num (.fin y)) => some ⟨.fin x, .fin y⟩
  | _, _ => none

/-- `edgeWaypoints`. -/
def edgeWaypoints (data : Option Json) : List Point :=
  match data.bind (jsonField "waypoints") with
  | some (.arr raw) => raw.filterMap finitePoint
  | _ => []

/-- A list of corners as a property of a plain object. -/
def waypointsField (waypoints : List Point) : String × Json :=
  ("waypoints", .arr (waypoints.map Point.json))

/-- A property of a plain object set where it stands, or behind the others. -/
def setField (name : String) (v : Json) : List (String × Json) → List (String × Json)
  | [] => [(name, v)]
  | field :: fields =>
    if field.1 = name then (name, v) :: fields else field :: setField name v fields

/-- `withWaypoints`. -/
def withWaypoints (data : Option (List (String × Json))) (waypoints : List Point) :
    List (String × Json) :=
  let next := data.getD []
  if waypoints ≠ [] then setField "waypoints" (waypointsField waypoints).2 next
  else next.filter fun field => field.1 ≠ "waypoints"

/-! ## Loading and saving -/

/-- A node of a graph on the canvas. -/
def blockNode (n : ModelNode) : BlockFlowNode where
  id := n.id
  position := ⟨(n.position.map Point.x).getD 0, (n.position.map Point.y).getD 0⟩
  blockType := n.type
  config := n.config.getD []

/-- An edge of a graph on the canvas. -/
def wireEdge (e : ModelEdge) : WireEdge :=
  let pre := if e.kind = "data" then "data" else "ctrl"
  { id := e.id
    source := e.source
    target := e.target
    sourceHandle := some (pre ++ ":" ++ e.sourcePort)
    targetHandle := some (pre ++ ":" ++ e.targetPort)
    data := some (.obj (("kind", .str e.kind) ::
      match e.waypoints with
      | some (p :: waypoints) =>
        [waypointsField (edgeWaypoints (some (.obj [waypointsField (p :: waypoints)])))]
      | _ => [])) }

/-- `graphToFlow`. -/
def graphToFlow (graph : ModelGraph) : List BlockFlowNode × List WireEdge :=
  ((graph.nodes.getD []).map blockNode, (graph.edges.getD []).map wireEdge)

/-- What a save takes of a node. -/
def modelNode (n : BlockFlowNode) : ModelNode where
  id := n.id
  type := n.blockType
  config := some n.config
  position := some ⟨n.position.x, n.position.y⟩

/-- What a save takes of an edge; no corners are left out. -/
def modelEdge (e : WireEdge) : ModelEdge :=
  let srcH := e.sourceHandle.getD ""
  let tgtH := e.targetHandle.getD ""
  { id := e.id
    kind := if isDataHandle srcH then "data" else "control"
    source := e.source
    sourcePort := stripKind srcH
    target := e.target
    targetPort := stripKind tgtH
    waypoints := if edgeWaypoints e.data = [] then none else some (edgeWaypoints e.data) }

/-- `flowToGraph` at the time `now`, as the binding's classes hold it. -/
def flowToModel (info : GraphMeta) (now : Int) (nodes : List BlockFlowNode)
    (edges : List WireEdge) : ModelGraph where
  id := info.id
  name := info.name
  serverId := none
  enabled := info.enabled
  nodes := some (nodes.map modelNode)
  edges := some (edges.map modelEdge)
  createdAt := info.createdAt
  updatedAt := now

/-- What a save keeps of the graph that was opened. -/
def ModelGraph.info (g : ModelGraph) : GraphMeta := ⟨g.id, g.name, g.enabled, g.createdAt⟩

/-! ## The signature -/

/-- `stripCollapsed`. -/
def stripCollapsed (config : List (String × Json)) : List (String × Json) :=
  config.filter fun field => field.1 ≠ "_collapsed"

/-- A node as `JSON.stringify` sees it. -/
def ModelNode.json (n : ModelNode) : Json :=
  .obj ([("id", .str n.id), ("type", .str n.type)] ++
    (n.config.map fun config => ("config", Json.obj config)).toList ++
    (n.position.map fun p => ("position", p.json)).toList)

/-- An edge as `JSON.stringify` sees it. -/
def ModelEdge.json (e : ModelEdge) : Json :=
  .obj ([("id", .str e.id), ("kind", .str e.kind), ("source", .str e.source),
    ("sourcePort", .str e.sourcePort), ("target", .str e.target),
    ("targetPort", .str e.targetPort)] ++ (e.waypoints.map waypointsField).toList)

section

-- `String.prototype.localeCompare` of the browser
variable (localeCompare : String → String → Int)

/-- `.sort((a, b) => a.id.localeCompare(b.id))`. -/
def sortById {α : Type} (id : α → String) (l : List α) : List α :=
  l.mergeSort fun a b => decide (localeCompare (id a) (id b) ≤ 0)

/-- `graphSignature`. -/
def graphSignature (name : String) (enabled : Bool) (nodes : List BlockFlowNode)
    (edges : List WireEdge) : String :=
  String.ofList (stringify (.obj
    [("name", .str name), ("enabled", .bool enabled),
      ("nodes", .arr ((sortById localeCompare ModelNode.id (nodes.map fun n =>
        { id := n.id
          type := n.blockType
          config := some (stripCollapsed n.config)
          position := some ⟨n.position.x, n.position.y⟩ })).map ModelNode.json)),
      ("edges", .arr ((sortById localeCompare ModelEdge.id (edges.map fun e =>
        let srcH := e.sourceHandle.getD ""
        let tgtH := e.targetHandle.getD ""
        let waypoints := edgeWaypoints e.data
        { id := e.id
          kind := if isDataHandle srcH then "data" else "control"
          source := e.source
          sourcePort := stripKind srcH
          target := e.target
          targetPort := stripKind tgtH
          waypoints := if waypoints = [] then none else some waypoints })).map
        ModelEdge.json))]))

end

/-! ## In the engine -/

/-- The node the wiring rules look at. -/
def BlockFlowNode.flowNode (n : BlockFlowNode) : FlowNode :=
  ⟨n.id, n.blockType, GoMap.ofList n.config⟩

/-- The edge the wiring rules look at. -/
def WireEdge.flowEdge (e : WireEdge) : FlowEdge where
  id := e.id
  source := e.source
  target := e.target
  sourceHandle := e.sourceHandle
  targetHandle := e.targetHandle
  kind := match e.data.bind (jsonField "kind") with
    | some (.str kind) => some kind
    | _ => none

/-- An edge as the engine decodes it. -/
def ModelEdge.edge (e : ModelEdge) : Edge :=
  ⟨e.id, e.kind, e.source, e.sourcePort, e.target, e.targetPort⟩

/-- A node as the engine decodes it. -/
def ModelNode.node (n : ModelNode) : Scheduler.Node :=
  ⟨n.id, n.type, (GoMap.ofList (n.config.getD [])).mapVals Json.toValue⟩

/-- A graph as the engine decodes it. -/
def ModelGraph.graph (g : ModelGraph) : Graph where
  id := g.id
  name := g.name
  serverID := g.serverId.getD ""
  enabled := g.enabled
  nodes := (g.nodes.getD []).map ModelNode.node
  edges := (g.edges.getD []).map ModelEdge.edge
  createdAt := g.createdAt
  updatedAt := g.updatedAt

/-- What a save gives the engine is the graph the wiring rules are about. -/
theorem graph_flowToModel (info : GraphMeta) (now : Int) (nodes : List BlockFlowNode)
    (edges : List WireEdge) : (flowToModel info now nodes edges).graph =
      flowToGraph info now (nodes.map BlockFlowNode.flowNode) (edges.map WireEdge.flowEdge) := by
  have hnodes : (nodes.map modelNode).map ModelNode.node =
      (nodes.map BlockFlowNode.flowNode).map savedNode := by
    rw [List.map_map, List.map_map]
    rfl
  have hedges : (edges.map modelEdge).map ModelEdge.edge =
      (edges.map WireEdge.flowEdge).map savedEdge := by
    rw [List.map_map, List.map_map]
    rfl
  rw [ModelGraph.graph, flowToGraph, ← hnodes, ← hedges]
  rfl

/-! ## There and back -/

/-- A point of finite numbers. -/
def Point.Finite (p : Point) : Prop := ∃ x y, p = ⟨.fin x, .fin y⟩

theorem finitePoint_json {p : Point} (h : p.Finite) : finitePoint p.json = some p := by
  obtain ⟨x, y, rfl⟩ := h
  rfl

theorem filterMap_finitePoint {ps : List Point} (h : ∀ p ∈ ps, p.Finite) :
    (ps.map Point.json).filterMap finitePoint = ps := by
  induction ps with
  | nil => rfl
  | cons p ps ih =>
    rw [List.forall_mem_cons] at h
    rw [List.map_cons, List.filterMap_cons_some (finitePoint_json h.1), ih h.2]

/-- Finite corners are read as they were put in. -/
theorem edgeWaypoints_field {fields : List (String × Json)} {ps : List Point}
    (hfield : fields.lookup "waypoints" = some (.arr (ps.map Point.json)))
    (h : ∀ p ∈ ps, p.Finite) : edgeWaypoints (some (.obj fields)) = ps := by
  have hbind : (some (Json.obj fields)).bind (jsonField "waypoints") =
      some (.arr (ps.map Point.json)) := hfield
  rw [edgeWaypoints, hbind]
  exact filterMap_finitePoint h

theorem lookup_setField (name : String) (v : Json) (fields : List (String × Json)) :
    (setField name v fields).lookup name = some v := by
  induction fields with
  | nil => simp [setField]
  | cons field fields ih =>
    rw [setField]
    split_ifs with hname
    · simp
    · rw [List.lookup_cons, beq_false_of_ne (Ne.symm hname)]
      exact ih

/-- Corners that are put into the data of an edge are read back. -/
theorem edgeWaypoints_withWaypoints (data : Option (List (String × Json))) {ps : List Point}
    (h : ∀ p ∈ ps, p.Finite) : edgeWaypoints (some (.obj (withWaypoints data ps))) = ps := by
  by_cases hps : ps = []
  · have hlookup : (withWaypoints data ps).lookup "waypoints" = none := by
      rw [withWaypoints, if_neg (not_not.2 hps), List.lookup_eq_none_iff]
      intro field hfield
      have hname := of_decide_eq_true (List.mem_filter.1 hfield).2
      simpa using Ne.symm hname
    have hbind : (some (Json.obj (withWaypoints data ps))).bind (jsonField "waypoints") = none :=
      hlookup
    rw [edgeWaypoints, hbind, hps]
  · apply edgeWaypoints_field _ h
    rw [withWaypoints, if_pos hps]
    exact lookup_setField _ _ _

theorem stripKind_ctrl (port : String) : stripKind ("ctrl:" ++ port) = port := by
  rw [stripKind, cutPrefix_append]

theorem cutPrefix_ctrl_data (port : String) : cutPrefix "ctrl:" ("data:" ++ port) = none := by
  rw [cutPrefix, if_neg]
  rw [String.toList_append]
  simp [List.isPrefixOf]

theorem stripKind_dataHandle (port : String) : stripKind ("data:" ++ port) = port := by
  rw [stripKind, cutPrefix_ctrl_data]
  exact trimPrefix_append "data:" port

theorem isDataHandle_dataHandle (port : String) : isDataHandle ("data:" ++ port) = true := by
  rw [isDataHandle, cutPrefix_append]
  rfl

theorem isDataHandle_ctrl (port : String) : isDataHandle ("ctrl:" ++ port) = false := by
  rw [isDataHandle, cutPrefix, if_neg]
  · rfl
  · rw [String.toList_append]
    simp [List.isPrefixOf]

/-- An edge without the empty list of corners. -/
def ModelEdge.plain (e : ModelEdge) : ModelEdge :=
  { e with waypoints := if e.waypoints.getD [] = [] then none else e.waypoints }

/-- A node with the empty configuration for a missing one. -/
def ModelNode.configured (n : ModelNode) : ModelNode := { n with config := some (n.config.getD []) }

theorem modelNode_blockNode {n : ModelNode} (h : n.position.isSome) :
    modelNode (blockNode n) = n.configured := by
  obtain ⟨id, type, config, position⟩ := n
  obtain ⟨p, rfl⟩ := Option.isSome_iff_exists.1 h
  rfl

/-- The corners of an edge on the canvas are those of the edge. -/
theorem edgeWaypoints_wireEdge {e : ModelEdge} (h : ∀ p ∈ e.waypoints.getD [], p.Finite) :
    edgeWaypoints (wireEdge e).data = e.waypoints.getD [] := by
  obtain ⟨id, kind, source, sourcePort, target, targetPort, waypoints⟩ := e
  cases waypoints with
  | none => rfl
  | some waypoints =>
    cases waypoints with
    | nil => rfl
    | cons p ps =>
      have hread : edgeWaypoints (some (.obj [waypointsField (p :: ps)])) = p :: ps :=
        edgeWaypoints_field rfl h
      apply edgeWaypoints_field _ h
      change some (Json.arr ((edgeWaypoints (some (.obj [waypointsField (p :: ps)]))).map
        Point.json)) = _
      rw [hread]
      rfl

theorem modelEdge_wireEdge {e : ModelEdge} (hkind : e.kind = "control" ∨ e.kind = "data")
    (h : ∀ p ∈ e.waypoints.getD [], p.Finite) : modelEdge (wireEdge e) = e.plain := by
  have hwaypoints := edgeWaypoints_wireEdge h
  have hcorners : (if e.waypoints.getD [] = [] then none else some (e.waypoints.getD [])) =
      e.plain.waypoints := by
    rw [ModelEdge.plain]
    cases e.waypoints <;> rfl
  rw [modelEdge, hwaypoints, hcorners]
  rcases hkind with hkind | hkind
  · have hsource : (wireEdge e).sourceHandle.getD "" = "ctrl:" ++ e.sourcePort := by
      rw [wireEdge, hkind]
      rfl
    have htarget : (wireEdge e).targetHandle.getD "" = "ctrl:" ++ e.targetPort := by
      rw [wireEdge, hkind]
      rfl
    simp only [hsource, htarget, isDataHandle_ctrl, stripKind_ctrl, Bool.false_eq_true, if_false]
    rw [← hkind]
    rfl
  · have hsource : (wireEdge e).sourceHandle.getD "" = "data:" ++ e.sourcePort := by
      rw [wireEdge, hkind]
      rfl
    have htarget : (wireEdge e).targetHandle.getD "" = "data:" ++ e.targetPort := by
      rw [wireEdge, hkind]
      rfl
    simp only [hsource, htarget, isDataHandle_dataHandle, stripKind_dataHandle, if_true]
    rw [← hkind]
    rfl

/-- A graph whose edges and positions the canvas can hold. -/
structure ModelGraph.Drawable (g : ModelGraph) : Prop where
  kind : ∀ e ∈ g.edges.getD [], e.kind = "control" ∨ e.kind = "data"
  finite : ∀ e ∈ g.edges.getD [], ∀ p ∈ e.waypoints.getD [], p.Finite
  position : ∀ n ∈ g.nodes.getD [], n.position.isSome

/-- Loading and saving gives the graph back, missing configurations and lists being empty. -/
theorem flowToModel_graphToFlow {g : ModelGraph} (h : g.Drawable) (now : Int) :
    flowToModel g.info now (graphToFlow g).1 (graphToFlow g).2 =
      { g with
        serverId := none
        nodes := some ((g.nodes.getD []).map ModelNode.configured)
        edges := some ((g.edges.getD []).map ModelEdge.plain)
        updatedAt := now } := by
  have hnodes : ((g.nodes.getD []).map blockNode).map modelNode =
      (g.nodes.getD []).map ModelNode.configured := by
    rw [List.map_map]
    exact List.map_congr_left fun n hn => modelNode_blockNode (h.position n hn)
  have hedges : ((g.edges.getD []).map wireEdge).map modelEdge =
      (g.edges.getD []).map ModelEdge.plain := by
    rw [List.map_map]
    exact List.map_congr_left fun e he => modelEdge_wireEdge (h.kind e he) (h.finite e he)
  rw [flowToModel, graphToFlow, hnodes, hedges]
  rfl

/-! ## What the signature tells -/

/-- A node without its view toggle. -/
def ModelNode.uncollapsed (n : ModelNode) : ModelNode :=
  { n with config := n.config.map stripCollapsed }

/-- Two graphs that are sent with the same content, up to the order of nodes and edges and to what
is only a view. -/
structure SameContent (g h : ModelGraph) : Prop where
  name : g.name = h.name
  enabled : g.enabled = h.enabled
  nodes : ((g.nodes.getD []).map fun n => n.uncollapsed.json.written).Perm
    ((h.nodes.getD []).map fun n => n.uncollapsed.json.written)
  edges : ((g.edges.getD []).map fun e => e.json.written).Perm
    ((h.edges.getD []).map fun e => e.json.written)

/-- The numbers on a canvas are those of a `float64`. -/
structure CanvasNumbers (nodes : List BlockFlowNode) (edges : List WireEdge) : Prop where
  config : ∀ n ∈ nodes, (Json.obj n.config).Doubles
  position : ∀ n ∈ nodes, n.position.json.Doubles
  data : ∀ e ∈ edges, ∀ v, e.data = some v → v.Doubles

section

variable (localeCompare : String → String → Int)

/-- The signature is the text of what a save takes, sorted and without the view toggle. -/
theorem graphSignature_eq (name : String) (enabled : Bool) (nodes : List BlockFlowNode)
    (edges : List WireEdge) : graphSignature localeCompare name enabled nodes edges =
      String.ofList (stringify (.obj [("name", .str name), ("enabled", .bool enabled),
        ("nodes", .arr ((sortById localeCompare ModelNode.id
          (nodes.map fun n => (modelNode n).uncollapsed)).map ModelNode.json)),
        ("edges", .arr ((sortById localeCompare ModelEdge.id
          (edges.map modelEdge)).map ModelEdge.json))])) := rfl

end

/-! ### Numbers -/

theorem writtenElems_eq (l : List Json) : writtenElems l = l.map Json.written := by
  induction l with
  | nil => rfl
  | cons v l ih => rw [writtenElems, List.map_cons, ih]

theorem doublesElems_iff (l : List Json) : DoublesElems l ↔ ∀ v ∈ l, v.Doubles := by
  induction l with
  | nil => simp [DoublesElems]
  | cons v l ih => rw [DoublesElems, List.forall_mem_cons, ih]

theorem doublesFields_iff (l : List (String × Json)) :
    DoublesFields l ↔ ∀ field ∈ l, field.2.Doubles := by
  induction l with
  | nil => simp [DoublesFields]
  | cons field l ih => rw [DoublesFields, List.forall_mem_cons, ih]

theorem doubles_jsonField {v w : Json} {name : String} (h : v.Doubles)
    (hfield : jsonField name v = some w) : w.Doubles := by
  cases v with
  | obj fields =>
    rw [Json.Doubles, doublesFields_iff] at h
    obtain ⟨before, after, hfields, -⟩ := List.lookup_eq_some_iff.1 hfield
    exact h (name, w) (by simp [hfields])
  | _ => cases hfield

theorem doubles_finitePoint {v : Json} {p : Point} (h : v.Doubles) (hp : finitePoint v = some p) :
    p.json.Doubles := by
  unfold finitePoint at hp
  split at hp
  · rename_i x y hx hy
    cases hp
    exact ⟨doubles_jsonField h hx, doubles_jsonField h hy, trivial⟩
  · cases hp

theorem doubles_edgeWaypoints {data : Option Json} (h : ∀ v, data = some v → v.Doubles) :
    ∀ p ∈ edgeWaypoints data, p.json.Doubles := by
  intro p hp
  unfold edgeWaypoints at hp
  split at hp
  · rename_i raw hraw
    obtain ⟨v, hv, hfield⟩ := Option.bind_eq_some_iff.1 hraw
    obtain ⟨elem, helem, hpoint⟩ := List.mem_filterMap.1 hp
    have hdoubles : DoublesElems raw := doubles_jsonField (h v hv) hfield
    exact doubles_finitePoint ((doublesElems_iff raw).1 hdoubles elem helem) hpoint
  · cases hp

theorem doubles_modelNode {n : BlockFlowNode} (hconfig : (Json.obj n.config).Doubles)
    (hposition : n.position.json.Doubles) : (modelNode n).uncollapsed.json.Doubles := by
  refine ⟨trivial, trivial, ?_, hposition, trivial⟩
  rw [Json.Doubles, doublesFields_iff] at hconfig ⊢
  exact fun field hfield => hconfig field (List.mem_of_mem_filter hfield)

theorem doubles_edgeJson {e : ModelEdge} (h : ∀ p ∈ e.waypoints.getD [], p.json.Doubles) :
    e.json.Doubles := by
  obtain ⟨id, kind, source, sourcePort, target, targetPort, waypoints⟩ := e
  cases waypoints with
  | none => exact ⟨trivial, trivial, trivial, trivial, trivial, trivial, trivial⟩
  | some waypoints =>
    have hlist : DoublesElems (waypoints.map Point.json) := by
      rw [doublesElems_iff]
      intro v hv
      obtain ⟨p, hp, rfl⟩ := List.mem_map.1 hv
      exact h p hp
    exact ⟨trivial, trivial, trivial, trivial, trivial, trivial, hlist, trivial⟩

theorem doubles_modelEdge {e : WireEdge} (h : ∀ v, e.data = some v → v.Doubles) :
    (modelEdge e).json.Doubles := by
  apply doubles_edgeJson
  intro p hp
  have hmem : p ∈ edgeWaypoints e.data := by
    rw [modelEdge] at hp
    dsimp only at hp
    by_cases hnil : edgeWaypoints e.data = []
    · rw [if_pos hnil] at hp
      cases hp
    · rwa [if_neg hnil] at hp
  exact doubles_edgeWaypoints h p hmem

/-! ### Equal signatures -/

section

variable {localeCompare : String → String → Int}

/-- Lists that are the same once they are sorted have the same elements. -/
theorem perm_of_sortById {α β : Type} {id : α → String} {f : α → β} {l l' : List α}
    (h : (sortById localeCompare id l).map f = (sortById localeCompare id l').map f) :
    (l.map f).Perm (l'.map f) := by
  have hsorted : ∀ l : List α, ((sortById localeCompare id l).map f).Perm (l.map f) :=
    fun l => (List.mergeSort_perm l _).map f
  exact (hsorted l).symm.trans (h ▸ hsorted l')

theorem doubles_sorted {α : Type} {id : α → String} {f : α → Json} {l : List α}
    (h : ∀ a ∈ l, (f a).Doubles) : DoublesElems ((sortById localeCompare id l).map f) := by
  rw [doublesElems_iff]
  intro v hv
  obtain ⟨a, ha, rfl⟩ := List.mem_map.1 hv
  exact h a ((List.mergeSort_perm l _).mem_iff.1 ha)

/-- Canvases with one signature are saved as the same content. -/
theorem sameContent_of_graphSignature {info info' : GraphMeta} {now now' : Int}
    {nodes nodes' : List BlockFlowNode} {edges edges' : List WireEdge}
    (hnumbers : CanvasNumbers nodes edges) (hnumbers' : CanvasNumbers nodes' edges')
    (h : graphSignature localeCompare info.name info.enabled nodes edges =
      graphSignature localeCompare info'.name info'.enabled nodes' edges') :
    SameContent (flowToModel info now nodes edges) (flowToModel info' now' nodes' edges') := by
  have hdoubles : ∀ (name : String) (enabled : Bool) {nodes : List BlockFlowNode}
      {edges : List WireEdge}, CanvasNumbers nodes edges →
      (Json.obj [("name", .str name), ("enabled", .bool enabled),
        ("nodes", .arr ((sortById localeCompare ModelNode.id
          (nodes.map fun n => (modelNode n).uncollapsed)).map ModelNode.json)),
        ("edges", .arr ((sortById localeCompare ModelEdge.id
          (edges.map modelEdge)).map ModelEdge.json))]).Doubles := by
    intro name enabled nodes edges hnumbers
    refine ⟨trivial, trivial, doubles_sorted ?_, doubles_sorted ?_, trivial⟩
    · intro n hn
      obtain ⟨m, hm, rfl⟩ := List.mem_map.1 hn
      exact doubles_modelNode (hnumbers.config m hm) (hnumbers.position m hm)
    · intro e he
      obtain ⟨w, hw, rfl⟩ := List.mem_map.1 he
      exact doubles_modelEdge (hnumbers.data w hw)
  rw [graphSignature_eq, graphSignature_eq, String.ofList_inj] at h
  have hwritten := written_eq_of_stringify (hdoubles _ _ hnumbers) (hdoubles _ _ hnumbers') h
  simp only [Json.written, writtenFields, Json.obj.injEq, List.cons.injEq, Prod.mk.injEq, true_and,
    and_true, Json.str.injEq, Json.bool.injEq, Json.arr.injEq, writtenElems_eq, List.map_map]
    at hwritten
  obtain ⟨hname, henabled, hnodes, hedges⟩ := hwritten
  refine ⟨hname, henabled, ?_, ?_⟩
  · have hperm := perm_of_sortById hnodes
    rw [List.map_map, List.map_map] at hperm
    simp only [flowToModel, Option.getD_some, List.map_map]
    exact hperm
  · have hperm := perm_of_sortById hedges
    rw [List.map_map, List.map_map] at hperm
    simp only [flowToModel, Option.getD_some, List.map_map]
    exact hperm

end

/-- A graph whose edges and positions the canvas can hold is saved as it was loaded, in id, name,
flag, time of creation, nodes and edges in their order; a missing configuration or list is saved as
the empty one. Canvases with one signature, in whatever order the browser sorts, are saved as the
same content. -/
theorem editor_roundTrip (localeCompare : String → String → Int) :
    (∀ (g : ModelGraph), g.Drawable → ∀ now,
      flowToModel g.info now (graphToFlow g).1 (graphToFlow g).2 =
        { g with
          serverId := none
          nodes := some ((g.nodes.getD []).map ModelNode.configured)
          edges := some ((g.edges.getD []).map ModelEdge.plain)
          updatedAt := now }) ∧
      ∀ (info info' : GraphMeta) (now now' : Int) (nodes nodes' : List BlockFlowNode)
        (edges edges' : List WireEdge), CanvasNumbers nodes edges → CanvasNumbers nodes' edges' →
          graphSignature localeCompare info.name info.enabled nodes edges =
            graphSignature localeCompare info'.name info'.enabled nodes' edges' →
          SameContent (flowToModel info now nodes edges) (flowToModel info' now' nodes' edges') :=
  ⟨fun _ h now => flowToModel_graphToFlow h now,
    fun _ _ _ _ _ _ _ _ hnumbers hnumbers' h =>
      sameContent_of_graphSignature hnumbers hnumbers' h⟩

/-- A data edge between ports named like handles, with a corner, comes back as it was. -/
theorem editor_roundTrip_dataEdge :
    flowToModel ⟨"g", "G", true, 1⟩ 2
      (graphToFlow ⟨"g", "G", none, true, none, some [⟨"e", "data", "a", "data:out", "b", "ctrl:in",
        some [⟨.fin 3, .fin 4⟩]⟩], 1, 1⟩).1
      (graphToFlow ⟨"g", "G", none, true, none, some [⟨"e", "data", "a", "data:out", "b", "ctrl:in",
        some [⟨.fin 3, .fin 4⟩]⟩], 1, 1⟩).2 =
      ⟨"g", "G", none, true, some [], some [⟨"e", "data", "a", "data:out", "b", "ctrl:in",
        some [⟨.fin 3, .fin 4⟩]⟩], 1, 2⟩ := by
  refine (editor_roundTrip fun _ _ => 0).1 ⟨"g", "G", none, true, none, some [⟨"e", "data", "a",
    "data:out", "b", "ctrl:in", some [⟨.fin 3, .fin 4⟩]⟩], 1, 1⟩ ⟨?_, ?_, ?_⟩ 2
  · intro e he
    obtain rfl := List.mem_singleton.1 he
    exact .inr rfl
  · intro e he p hp
    obtain rfl := List.mem_singleton.1 he
    obtain rfl := List.mem_singleton.1 hp
    exact ⟨3, 4, rfl⟩
  · intro n hn
    cases hn

/-- A node without a configuration comes back with the empty one. -/
theorem not_flowToModel_graphToFlow : ¬ ∀ g : ModelGraph, g.Drawable → ∀ now,
    (flowToModel g.info now (graphToFlow g).1 (graphToFlow g).2).nodes = g.nodes := by
  intro h
  have hdrawable : ModelGraph.Drawable
      ⟨"g", "G", none, true, some [⟨"n1", "x", none, some ⟨0, 0⟩⟩], none, 1, 1⟩ := by
    refine ⟨?_, ?_, ?_⟩
    · intro e he
      cases he
    · intro e he
      cases he
    · intro n hn
      obtain rfl := List.mem_singleton.1 hn
      rfl
  have hconfig := congrArg (fun nodes : Option (List ModelNode) =>
    (nodes.getD []).map fun n => n.config.isSome) (h _ hdrawable 2)
  revert hconfig
  decide

end Konnekt.Editor
