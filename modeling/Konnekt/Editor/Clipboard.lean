import Konnekt.Editor.GraphSignature
import Mathlib

/-!
# Copy and paste on the canvas

A copy takes the selected nodes and the edges between two of them. A paste gives every node and
every edge of the copy a fresh id, moves the ends of the edges to the new nodes, and adds both to
the canvas. Ids are drawn from a source, one after the other.
-/

namespace Konnekt.Editor

open Go Js

/-- A node as React Flow holds it, with all of its `data`. -/
structure CanvasNode extends BlockFlowNode where
  label : String
  /-- `_animDelay`. -/
  animDelay : Option Float64
  selected : Bool

/-- An edge as React Flow holds it. -/
structure CanvasEdge extends WireEdge where
  selected : Bool

/-- Nodes and edges: a canvas, or a `ClipboardSlice`. -/
structure Canvas where
  nodes : List CanvasNode
  edges : List CanvasEdge

/-! ## Copying -/

/-- `cloneData`, with the rest of the node that a copy keeps. -/
def cloneNode (n : CanvasNode) : CanvasNode :=
  { n with animDelay := none, selected := false }

/-- `cloneEdgeData`; the data of an edge is an object. -/
def cloneEdgeData : Option Json → Option Json
  | some (.obj fields) => some (.obj (fields.filter fun field => field.1 ≠ "_animDelay"))
  | data => data

/-- An edge with its data copied. -/
def cloneEdge (e : CanvasEdge) : CanvasEdge :=
  { e with data := cloneEdgeData e.data, selected := false }

namespace Canvas

/-- `chosen`. -/
def chosen (c : Canvas) : List CanvasNode := c.nodes.filter (·.selected)

/-- `ids`. -/
def chosenIds (c : Canvas) : List String := c.chosen.map (·.id)

/-- The edges that run between two of the chosen nodes. -/
def inner (c : Canvas) : List CanvasEdge :=
  c.edges.filter fun e => e.source ∈ c.chosenIds ∧ e.target ∈ c.chosenIds

end Canvas

def captureSelection (c : Canvas) : Option Canvas :=
  if c.chosen.isEmpty then none else some ⟨c.chosen.map cloneNode, c.inner.map cloneEdge⟩

/-! ## Pasting -/

/-- `idMap`, where `randId k` is the id drawn as number `k`. -/
def idMap (randId : Nat → String) (nodes : List CanvasNode) : GoMap String :=
  nodes.zipIdx.foldl (fun m n => m.insert n.1.id (randId n.2)) ∅

/-- The edges of a paste, the first with the id drawn as number `k`. An end without a new id, or
with an empty one, drops its edge. -/
def pasteEdges (randId : Nat → String) (ids : GoMap String) :
    Nat → List CanvasEdge → List CanvasEdge
  | _, [] => []
  | k, e :: es =>
    let source := (ids.lookup e.source).getD ""
    let target := (ids.lookup e.target).getD ""
    if source = "" ∨ target = "" then pasteEdges randId ids k es
    else { cloneEdge e with id := randId k, source := source, target := target } ::
      pasteEdges randId ids (k + 1) es

/-- A node of a paste. -/
def pasteNode (ids : GoMap String) (delta : Point) (n : CanvasNode) : CanvasNode :=
  { cloneNode n with
    id := (ids.lookup n.id).getD ""
    position := ⟨n.position.x.add delta.x, n.position.y.add delta.y⟩
    selected := true }

def instantiateSlice (randId : Nat → String) (slice : Canvas) (delta : Point) : Canvas :=
  let ids := idMap randId slice.nodes
  ⟨slice.nodes.map (pasteNode ids delta),
    pasteEdges randId ids slice.nodes.length slice.edges⟩

/-- `placeSlice`: of the nodes and edges on the canvas only the pasted nodes are selected. -/
def placeSlice (placed canvas : Canvas) : Canvas where
  nodes := canvas.nodes.map (fun n => { n with selected := false }) ++ placed.nodes
  edges := canvas.edges.map (fun e => { e with selected := false }) ++ placed.edges

end Konnekt.Editor
