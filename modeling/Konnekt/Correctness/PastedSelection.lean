import Konnekt.Editor.Clipboard
import Konnekt.Scheduler.Engine
import Mathlib

/-!
# A pasted selection

What is pasted is a copy of the selection under new names, wired to itself. A reference in a text of
its configuration still has the name it was written with, so that a copy reads from the copies
what its original reads from the originals unless one of its texts names a selected node.
-/

namespace Konnekt.Editor

open Go Js Scheduler Lexing

/-! ## What a copy is -/

/-- The nodes and ports that a text of a configuration refers to. -/
def references (s : String) : List (String × String) := tokens (lex reTemplate s.toList)

/-- The names in the texts of a node's configuration. -/
def CanvasNode.referred (n : CanvasNode) : List String :=
  n.config.flatMap fun field =>
    match field.2 with
    | .str s => (references s).map (·.1)
    | _ => []

section

variable (rename : String → String) (chosen : List String)

/-- Plain text is kept, a reference to one of the nodes that are copied names its copy. -/
def CopiedPiece : Piece Char (String × String) → Piece Char (String × String) → Prop
  | .chr c, .chr c' => c' = c
  | .tok a _, .tok a' _ => a' = (if a.1 ∈ chosen then rename a.1 else a.1, a.2)
  | _, _ => False

def CopiedValue : Json → Json → Prop
  | .str s, .str s' =>
    List.Forall₂ (CopiedPiece rename chosen) (lex reTemplate s.toList) (lex reTemplate s'.toList)
  | v, v' => v' = v

structure CopiedNode (delta : Point) (n n' : CanvasNode) : Prop where
  id : n'.id = rename n.id
  blockType : n'.blockType = n.blockType
  label : n'.label = n.label
  position : n'.position = ⟨n.position.x.add delta.x, n.position.y.add delta.y⟩
  config : List.Forall₂ (fun field field' => field'.1 = field.1 ∧
    CopiedValue rename chosen field.2 field'.2) n.config n'.config

structure CopiedEdge (e e' : CanvasEdge) : Prop where
  source : e'.source = rename e.source
  target : e'.target = rename e.target
  sourceHandle : e'.sourceHandle = e.sourceHandle
  targetHandle : e'.targetHandle = e.targetHandle
  kind : e'.data.bind (jsonField "kind") = e.data.bind (jsonField "kind")
  waypoints : edgeWaypoints e'.data = edgeWaypoints e.data

end

/-- The configuration of a node in a run of the saved graph. -/
def runConfig (n : CanvasNode) : GoMap Value :=
  GoMap.ofList (n.config.map fun field => (field.1, field.2.toValue))

/-- An edge in a run of the saved graph. -/
def runEdge (e : CanvasEdge) : Edge :=
  let m := modelEdge e.toWireEdge
  ⟨m.id, m.kind, m.source, m.sourcePort, m.target, m.targetPort⟩

/-- What a node of a canvas reads of some outputs: its resolved configuration and its wired
values. -/
def reads (scope : AttrScope) (c : Canvas) (outputs : Outputs) (n : CanvasNode) :
    Outcome (GoMap Value × GoMap Value) := do
  let config ← resolveConfigTemplates scope (runConfig n) outputs
  return (config, resolveDataInputs n.id (c.edges.map runEdge) outputs)

/-- The outputs of a run of the copy beside those of a run of the original: the copies have recorded
what the originals have, and the nodes around these have recorded nothing. -/
structure Corresponding (rename : String → String) (source : Canvas) (outputs outputs' : Outputs) :
    Prop where
  copies : ∀ a ∈ source.chosenIds, outputs'.lookup (rename a) = outputs.lookup a
  outside : ∀ b ∉ source.chosenIds, (∃ e ∈ source.edges, e.source = b) → outputs.lookup b = none
  others : ∀ b ∉ source.chosenIds, b ∉ source.chosenIds.map rename →
    outputs'.lookup b = outputs.lookup b

/-- What has been pasted is the selection of `source` under other names. -/
structure CopiedUnder (rename : String → String) (source target : Canvas) (delta : Point)
    (placed : Canvas) : Prop where
  injective : ∀ a ∈ source.chosenIds, ∀ b ∈ source.chosenIds, rename a = rename b → a = b
  new : ∀ a ∈ source.chosenIds, ∀ n ∈ source.nodes ++ target.nodes, n.id ≠ rename a
  nodes : List.Forall₂ (CopiedNode rename source.chosenIds delta) source.chosen placed.nodes
  edges : List.Forall₂ (CopiedEdge rename) source.inner placed.edges
  edgeIds : (placed.edges.map (·.id)).Nodup
  newEdges : ∀ e ∈ placed.edges, ∀ e' ∈ target.edges, e'.id ≠ e.id
  /-- No other edge of the canvas has an end at a copy. -/
  wires : ∀ e ∈ (placeSlice placed target).edges,
    e.source ∈ source.chosenIds.map rename ∨ e.target ∈ source.chosenIds.map rename →
      e ∈ placed.edges
  /-- A copy reads of the copies what its original reads of the originals. -/
  reads : ∀ scope outputs outputs', Corresponding rename source outputs outputs' →
    List.Forall₂ (fun n n' => Editor.reads scope (placeSlice placed target) outputs' n' =
      Editor.reads scope source outputs n) source.chosen placed.nodes

/-- A pasted selection is an isomorphic copy of it, wired only to itself. -/
def IsCopy (source target : Canvas) (delta : Point) (placed : Canvas) : Prop :=
  ∃ rename, CopiedUnder rename source target delta placed

/-- No text in the configuration of a selected node refers to a selected node. -/
def NoInnerReference (source : Canvas) : Prop :=
  ∀ n ∈ source.chosen, ∀ name ∈ n.referred, name ∉ source.chosenIds

/-! ## Fresh ids -/

/-- The names that stand in two canvases. -/
def taken (source target : Canvas) : List String :=
  (source.nodes ++ target.nodes).flatMap (fun n => n.id :: n.referred) ++
    (source.edges ++ target.edges).flatMap fun e => [e.id, e.source, e.target]

/-- Draws of `randId` that give each id once, none of them empty or one of `names`. -/
structure FreshIds (names : List String) where
  randId : Nat → String
  injective : Function.Injective randId
  nonempty : ∀ k, randId k ≠ ""
  fresh : ∀ k, randId k ∉ names

/-- There are fresh ids: long enough ones. -/
def longIds (names : List String) : FreshIds names where
  randId k := String.ofList (List.replicate ((names.map String.length).sum + k + 1) 'x')
  injective := by
    intro j k h
    have := congrArg (fun s : String => s.toList.length) h
    simpa using this
  nonempty k h := by
    have := congrArg (fun s : String => s.toList.length) h
    simp at this
  fresh k hmem := by
    have hle := List.single_le_sum (fun _ _ => Nat.zero_le _) _
      (List.mem_map_of_mem (f := String.length) hmem)
    simp only [String.length_ofList, List.length_replicate] at hle
    omega

/-! ## The new names -/

/-- The new name of a node is one of the ids drawn, by the place of a node of that id. -/
theorem exists_of_lookup_idMap {randId : Nat → String} {nodes : List CanvasNode} {a x : String}
    (h : (idMap randId nodes).lookup a = some x) :
    ∃ k, ∃ hk : k < nodes.length, nodes[k].id = a ∧ x = randId k := by
  unfold idMap at h
  induction nodes using List.reverseRecOn with
  | nil => cases h
  | append_singleton nodes n ih =>
    rw [List.zipIdx_append, List.foldl_append] at h
    simp only [List.zipIdx_singleton, List.foldl_cons, List.foldl_nil, Nat.zero_add] at h
    by_cases ha : a = n.id
    · subst ha
      rw [AList.lookup_insert] at h
      refine ⟨nodes.length, by rw [List.length_append]; exact Nat.lt_succ_self _, ?_,
        (Option.some.inj h).symm⟩
      rw [List.getElem_concat_length rfl]
    · rw [AList.lookup_insert_ne ha] at h
      obtain ⟨k, hk, hid, hx⟩ := ih h
      refine ⟨k, by rw [List.length_append]; omega, ?_, hx⟩
      rw [List.getElem_append_left hk]
      exact hid

theorem lookup_idMap_isSome {randId : Nat → String} {nodes : List CanvasNode} {a : String}
    (h : a ∈ nodes.map (·.id)) : ((idMap randId nodes).lookup a).isSome = true := by
  unfold idMap
  induction nodes using List.reverseRecOn with
  | nil => cases h
  | append_singleton nodes n ih =>
    rw [List.zipIdx_append, List.foldl_append]
    simp only [List.zipIdx_singleton, List.foldl_cons, List.foldl_nil, Nat.zero_add]
    by_cases ha : a = n.id
    · rw [ha, AList.lookup_insert]
      rfl
    · rw [AList.lookup_insert_ne ha]
      rw [List.map_append, List.mem_append] at h
      exact ih (h.resolve_right fun hn => ha (List.mem_singleton.1 hn))

section

variable {source target : Canvas} (ids : FreshIds (taken source target))

/-- The new name of a node of the selection. -/
def renamed (a : String) : String :=
  ((idMap ids.randId (source.chosen.map cloneNode)).lookup a).getD ""

theorem exists_renamed {a : String} (ha : a ∈ source.chosenIds) :
    ∃ k, ∃ hk : k < source.chosen.length, source.chosen[k].id = a ∧
      renamed ids a = ids.randId k := by
  have hsome : ((idMap ids.randId (source.chosen.map cloneNode)).lookup a).isSome = true := by
    refine lookup_idMap_isSome ?_
    rw [List.map_map]
    exact ha
  obtain ⟨x, hx⟩ := Option.isSome_iff_exists.1 hsome
  obtain ⟨k, hk, hid, heq⟩ := exists_of_lookup_idMap hx
  refine ⟨k, by simpa using hk, ?_, ?_⟩
  · rw [List.getElem_map] at hid
    exact hid
  · rw [renamed, hx, Option.getD_some, heq]

theorem renamed_injective {a b : String} (ha : a ∈ source.chosenIds) (hb : b ∈ source.chosenIds)
    (h : renamed ids a = renamed ids b) : a = b := by
  obtain ⟨j, hj, rfl, hja⟩ := exists_renamed ids ha
  obtain ⟨k, hk, rfl, hkb⟩ := exists_renamed ids hb
  rw [hja, hkb] at h
  obtain rfl := ids.injective h
  rfl

theorem renamed_notMem {a : String} (ha : a ∈ source.chosenIds) :
    renamed ids a ∉ taken source target := by
  obtain ⟨k, -, -, hk⟩ := exists_renamed ids ha
  rw [hk]
  exact ids.fresh k

theorem renamed_ne {a : String} (ha : a ∈ source.chosenIds) : renamed ids a ≠ "" := by
  obtain ⟨k, -, -, hk⟩ := exists_renamed ids ha
  rw [hk]
  exact ids.nonempty k

end

/-! ## Pasted edges -/

/-- What every partner of an element has, all of the second list has. -/
theorem forall_right {α β : Type} {R : α → β → Prop} {q : β → Prop} {l : List α} {l' : List β}
    (h : List.Forall₂ R l l') (hq : ∀ a ∈ l, ∀ b, R a b → q b) : ∀ b ∈ l', q b := by
  induction h with
  | nil => exact fun b hb => absurd hb List.not_mem_nil
  | cons hab _ ih =>
    refine List.forall_mem_cons.2 ⟨hq _ List.mem_cons_self _ hab, ?_⟩
    exact ih fun a ha => hq a (List.mem_cons_of_mem _ ha)

/-- A copied property is there as it was, but for the delay of the animation. -/
theorem jsonField_cloneEdgeData {name : String} (hname : name ≠ "_animDelay")
    (data : Option Json) : (cloneEdgeData data).bind (jsonField name) =
      data.bind (jsonField name) := by
  cases data with
  | none => rfl
  | some json =>
    cases json with
    | obj fields =>
      change (fields.filter fun field => field.1 ≠ "_animDelay").lookup name = fields.lookup name
      induction fields with
      | nil => rfl
      | cons field fields ih =>
        obtain ⟨key, value⟩ := field
        by_cases hkey : key = "_animDelay"
        · rw [List.filter_cons_of_neg (by simpa using hkey), List.lookup_cons,
            beq_eq_false_iff_ne.2 (hkey ▸ hname), ih]
        · rw [List.filter_cons_of_pos (by simpa using hkey), List.lookup_cons, List.lookup_cons, ih]
    | _ => rfl

theorem edgeWaypoints_cloneEdgeData (data : Option Json) :
    edgeWaypoints (cloneEdgeData data) = edgeWaypoints data := by
  rw [edgeWaypoints, jsonField_cloneEdgeData (by decide), edgeWaypoints]

/-- Every edge whose ends have new names is pasted under the next id. -/
theorem pasteEdges_spec (randId : Nat → String) {m : GoMap String} {rename : String → String}
    (hrename : ∀ a, (m.lookup a).getD "" = rename a) {edges : List CanvasEdge}
    (hedges : ∀ e ∈ edges, rename e.source ≠ "" ∧ rename e.target ≠ "") (k : Nat) :
    List.Forall₂ (CopiedEdge rename) edges (pasteEdges randId m k (edges.map cloneEdge)) ∧
      (pasteEdges randId m k (edges.map cloneEdge)).map (·.id) =
        (List.range' k edges.length).map randId := by
  induction edges generalizing k with
  | nil => exact ⟨.nil, rfl⟩
  | cons e edges ih =>
    obtain ⟨hsource, htarget⟩ := hedges e List.mem_cons_self
    obtain ⟨hcopied, hids⟩ := ih (fun e he => hedges e (List.mem_cons_of_mem _ he)) (k + 1)
    have hkept : ¬ (rename e.source = "" ∨ rename e.target = "") := not_or.2 ⟨hsource, htarget⟩
    have hpaste : pasteEdges randId m k ((e :: edges).map cloneEdge) =
        { cloneEdge (cloneEdge e) with
          id := randId k, source := rename e.source, target := rename e.target } ::
        pasteEdges randId m (k + 1) (edges.map cloneEdge) := by
      rw [List.map_cons, pasteEdges]
      simp only [cloneEdge, hrename, if_neg hkept]
    rw [hpaste]
    refine ⟨.cons ⟨rfl, rfl, rfl, rfl, ?_, ?_⟩ hcopied, ?_⟩
    · exact (jsonField_cloneEdgeData (by decide) _).trans
        (jsonField_cloneEdgeData (by decide) e.data)
    · exact (edgeWaypoints_cloneEdgeData _).trans (edgeWaypoints_cloneEdgeData e.data)
    · rw [List.map_cons, hids, List.length_cons, List.range'_succ, List.map_cons]

/-! ## What the copies read -/

/-- The values at the references of a text decide what it resolves to. -/
theorem resolveValue_congr (scope : AttrScope) {outputs outputs' : Outputs} {v : Value}
    (h : ∀ s, v = .str s → ∀ a ∈ references s,
      lookupOutput outputs' a.1 a.2 = lookupOutput outputs a.1 a.2) :
    resolveValue scope outputs' v = resolveValue scope outputs v := by
  cases v with
  | str s =>
    have href := h s rfl
    have hsubst : substOutputs outputs' s.toList = substOutputs outputs s.toList :=
      replaceAll_congr (M := Id) fun a ha => by rw [href a ha]
    simp only [resolveValue, hsubst]
    cases hwhole : wholeToken reTemplate s.toList (trim s.toList) with
    | none => rfl
    | some a =>
      unfold wholeToken at hwhole
      split at hwhole
      · rename_i b text hfirst
        split at hwhole
        · cases hwhole
          exact congrArg Outcome.ok (href _ (mem_tokens_of_firstToken hfirst))
        · cases hwhole
      · cases hwhole
  | _ => rfl

theorem resolveEntries_congr (scope : AttrScope) {outputs outputs' : Outputs}
    {entries : List (Sigma fun _ : String => Value)}
    (h : ∀ entry ∈ entries, resolveValue scope outputs' entry.2 = resolveValue scope outputs entry.2)
    (out : GoMap Value) :
    resolveEntries scope outputs' entries out = resolveEntries scope outputs entries out := by
  induction entries generalizing out with
  | nil => rfl
  | cons entry entries ih =>
    rw [resolveEntries, resolveEntries, h entry List.mem_cons_self]
    exact congrArg _ (funext fun v => ih (fun e he => h e (List.mem_cons_of_mem _ he)) _)

/-- An entry of a configuration in a run is a field of the node's configuration. -/
theorem exists_field {n : CanvasNode} {entry : Sigma fun _ : String => Value}
    (h : entry ∈ (runConfig n).entries) : ∃ field ∈ n.config, field.2.toValue = entry.2 := by
  obtain ⟨k, v⟩ := entry
  have hlookup : (runConfig n).lookup k = some v := AList.mem_lookup_iff.2 h
  rw [runConfig, GoMap.lookup_ofList] at hlookup
  obtain ⟨pair, hlast, rfl⟩ := Option.map_eq_some_iff.1 hlookup
  obtain ⟨hmem, -⟩ := List.mem_filter.1 (List.mem_of_getLast? hlast)
  obtain ⟨field, hfield, rfl⟩ := List.mem_map.1 hmem
  exact ⟨field, hfield, rfl⟩

theorem str_of_toValue {v : Json} {s : String} (h : v.toValue = .str s) : v = .str s := by
  cases v with
  | str t => exact congrArg Json.str (Value.str.inj h)
  | num f => cases f <;> cases h
  | _ => cases h

/-- A name that a text refers to is one of the names of its node. -/
theorem mem_referred {n : CanvasNode} {field : String × Json} (hfield : field ∈ n.config)
    {s : String} (hs : field.2 = .str s) {a : String × String} (ha : a ∈ references s) :
    a.1 ∈ n.referred := by
  refine List.mem_flatMap.2 ⟨field, hfield, ?_⟩
  rw [hs]
  exact List.mem_map_of_mem ha

/-- Where the outputs at the names of its texts agree, a node's configuration resolves alike. -/
theorem resolveConfig_congr (scope : AttrScope) {outputs outputs' : Outputs} {n : CanvasNode}
    (h : ∀ b ∈ n.referred, outputs'.lookup b = outputs.lookup b) :
    resolveConfigTemplates scope (runConfig n) outputs' =
      resolveConfigTemplates scope (runConfig n) outputs := by
  refine resolveEntries_congr scope (fun entry hentry => ?_) ∅
  refine resolveValue_congr scope fun s hs a ha => ?_
  obtain ⟨field, hfield, hvalue⟩ := exists_field hentry
  have hstr := str_of_toValue (hvalue.trans hs)
  rw [lookupOutput, lookupOutput, h a.1 (mem_referred hfield hstr ha)]

section

variable {outputs outputs' : Outputs}

/-- An edge that brings no value to a node can be left out. -/
theorem resolveDataInputs_filter {id : String} (p : Edge → Bool) {edges : List Edge}
    (h : ∀ e ∈ edges, p e = false → e.kind = "data" ∧ e.target = id →
      lookupOutput outputs e.source e.sourcePort = .nil) :
    resolveDataInputs id (edges.filter p) outputs = resolveDataInputs id edges outputs := by
  unfold resolveDataInputs
  generalize (∅ : GoMap Value) = dataIn
  induction edges generalizing dataIn with
  | nil => rfl
  | cons e edges ih =>
    have ih := ih fun e he => h e (List.mem_cons_of_mem _ he)
    cases hp : p e with
    | true => rw [List.filter_cons_of_pos hp, List.foldl_cons, List.foldl_cons, ih]
    | false =>
      rw [List.filter_cons_of_neg (by rw [hp]; exact Bool.false_ne_true), List.foldl_cons, ih]
      by_cases hwired : e.kind = "data" ∧ e.target = id
      · rw [if_pos hwired, h e List.mem_cons_self hp hwired]
      · rw [if_neg hwired]

/-- Edges that bring the same values to two nodes, one by one, bring them the same. -/
theorem resolveDataInputs_forall₂ {id id' : String} {edges edges' : List Edge}
    (h : List.Forall₂ (fun e e' : Edge => (e'.kind = e.kind ∧ e'.targetPort = e.targetPort) ∧
      (e'.target = id' ↔ e.target = id) ∧
      lookupOutput outputs' e'.source e'.sourcePort = lookupOutput outputs e.source e.sourcePort)
      edges edges') :
    resolveDataInputs id' edges' outputs' = resolveDataInputs id edges outputs := by
  unfold resolveDataInputs
  generalize (∅ : GoMap Value) = dataIn
  induction h generalizing dataIn with
  | nil => rfl
  | cons hedge _ ih =>
    obtain ⟨⟨hkind, hport⟩, htarget, hvalue⟩ := hedge
    rw [List.foldl_cons, List.foldl_cons, ih]
    simp only [hkind, hport, htarget, hvalue]

end

/-! ## What is pasted -/

section

variable {source target : Canvas} (ids : FreshIds (taken source target)) (delta : Point)

/-- The nodes and edges of a paste of the selection. -/
def pasted : Canvas :=
  instantiateSlice ids.randId ⟨source.chosen.map cloneNode, source.inner.map cloneEdge⟩ delta

theorem chosen_sublist (c : Canvas) : ∀ n ∈ c.chosen, n ∈ c.nodes :=
  fun _ hn => (List.mem_filter.1 hn).1

theorem mem_inner {c : Canvas} {e : CanvasEdge} :
    e ∈ c.inner ↔ e ∈ c.edges ∧ e.source ∈ c.chosenIds ∧ e.target ∈ c.chosenIds := by
  rw [Canvas.inner, List.mem_filter, decide_eq_true_iff]

theorem mem_taken_of_node {n : CanvasNode} (hn : n ∈ source.nodes ++ target.nodes) :
    n.id ∈ taken source target :=
  List.mem_append_left _ (List.mem_flatMap.2 ⟨n, hn, List.mem_cons_self⟩)

theorem mem_taken_of_referred {n : CanvasNode} (hn : n ∈ source.nodes ++ target.nodes)
    {b : String} (hb : b ∈ n.referred) : b ∈ taken source target :=
  List.mem_append_left _ (List.mem_flatMap.2 ⟨n, hn, List.mem_cons_of_mem _ hb⟩)

theorem mem_taken_of_edge {e : CanvasEdge} (he : e ∈ source.edges ++ target.edges) {b : String}
    (hb : b ∈ [e.id, e.source, e.target]) : b ∈ taken source target :=
  List.mem_append_right _ (List.mem_flatMap.2 ⟨e, he, hb⟩)

theorem ends_mem_taken {e : CanvasEdge} (he : e ∈ source.edges ++ target.edges) :
    e.source ∈ taken source target ∧ e.target ∈ taken source target := by
  refine ⟨mem_taken_of_edge he ?_, mem_taken_of_edge he ?_⟩
  · exact List.mem_cons_of_mem _ List.mem_cons_self
  · exact List.mem_cons_of_mem _ (List.mem_cons_of_mem _ List.mem_cons_self)

theorem pasted_nodes : (pasted ids delta).nodes = source.chosen.map fun n =>
    pasteNode (idMap ids.randId (source.chosen.map cloneNode)) delta (cloneNode n) := by
  rw [pasted, instantiateSlice, List.map_map]
  rfl

theorem pasted_edges : List.Forall₂ (CopiedEdge (renamed ids)) source.inner
      (pasted ids delta).edges ∧
    (pasted ids delta).edges.map (·.id) =
      (List.range' source.chosen.length source.inner.length).map ids.randId := by
  have hends : ∀ e ∈ source.inner, renamed ids e.source ≠ "" ∧ renamed ids e.target ≠ "" := by
    intro e he
    obtain ⟨-, hsource, htarget⟩ := mem_inner.1 he
    exact ⟨renamed_ne ids hsource, renamed_ne ids htarget⟩
  have hname : ∀ a, ((idMap ids.randId (source.chosen.map cloneNode)).lookup a).getD "" =
      renamed ids a := fun _ => rfl
  have h := pasteEdges_spec ids.randId hname hends source.chosen.length
  simpa only [pasted, instantiateSlice, List.length_map] using h

/-- The ends of a pasted edge are copies. -/
theorem ends_of_pasted : ∀ e ∈ (pasted ids delta).edges,
    e.source ∈ source.chosenIds.map (renamed ids) ∧
      e.target ∈ source.chosenIds.map (renamed ids) := by
  refine forall_right (pasted_edges ids delta).1 fun e he e' hcopied => ?_
  obtain ⟨-, hsource, htarget⟩ := mem_inner.1 he
  rw [hcopied.source, hcopied.target]
  exact ⟨List.mem_map_of_mem hsource, List.mem_map_of_mem htarget⟩

/-- The data edges into a copy are pasted ones. -/
theorem filter_placed :
    ((placeSlice (pasted ids delta) target).edges.map runEdge).filter
        (fun e => e.target ∈ source.chosenIds.map (renamed ids)) =
      (pasted ids delta).edges.map runEdge := by
  rw [placeSlice, List.map_append, List.filter_append, List.filter_eq_nil_iff.2,
    List.filter_eq_self.2, List.nil_append]
  · intro e he
    obtain ⟨wire, hwire, rfl⟩ := List.mem_map.1 he
    exact decide_eq_true (ends_of_pasted ids delta wire hwire).2
  · intro e he hmem
    obtain ⟨wire, hwire, rfl⟩ := List.mem_map.1 he
    obtain ⟨old, hold, rfl⟩ := List.mem_map.1 hwire
    obtain ⟨a, ha, heq⟩ := List.mem_map.1 (of_decide_eq_true hmem)
    exact renamed_notMem ids ha (heq ▸ (ends_mem_taken (List.mem_append_right _ hold)).2)

theorem filter_inner (c : Canvas) :
    (c.edges.map runEdge).filter
        (fun e => e.source ∈ c.chosenIds ∧ e.target ∈ c.chosenIds) = c.inner.map runEdge := by
  rw [List.filter_map]
  rfl

/-- A pasted edge brings its copy what the edge it was made from brings. -/
theorem wired_pasted {outputs outputs' : Outputs}
    (hcorr : Corresponding (renamed ids) source outputs outputs') {id : String}
    (hid : id ∈ source.chosenIds) :
    List.Forall₂ (fun e e' : Edge => (e'.kind = e.kind ∧ e'.targetPort = e.targetPort) ∧
        (e'.target = renamed ids id ↔ e.target = id) ∧
        lookupOutput outputs' e'.source e'.sourcePort = lookupOutput outputs e.source e.sourcePort)
      (source.inner.map runEdge) ((pasted ids delta).edges.map runEdge) := by
  rw [List.forall₂_map_left_iff, List.forall₂_map_right_iff]
  refine ((List.forall₂_and_left _ _).2 ⟨fun e (he : e ∈ source.inner) => he,
    (pasted_edges ids delta).1⟩).imp fun e e' hpair => ?_
  obtain ⟨he, hcopied⟩ := hpair
  obtain ⟨-, hsource, htarget⟩ := mem_inner.1 he
  have hhandles : (runEdge e').kind = (runEdge e).kind ∧
      (runEdge e').sourcePort = (runEdge e).sourcePort ∧
      (runEdge e').targetPort = (runEdge e).targetPort := by
    simp only [runEdge, modelEdge, hcopied.sourceHandle, hcopied.targetHandle, and_self]
  refine ⟨⟨hhandles.1, hhandles.2.2⟩, ?_, ?_⟩
  · change e'.target = renamed ids id ↔ e.target = id
    rw [hcopied.target]
    exact ⟨renamed_injective ids htarget hid, congrArg _⟩
  · have hlookup : outputs'.lookup (runEdge e').source = outputs.lookup (runEdge e).source := by
      change outputs'.lookup e'.source = outputs.lookup e.source
      rw [hcopied.source, hcorr.copies e.source hsource]
    rw [lookupOutput, lookupOutput, hlookup, hhandles.2.1]

/-- A copy reads of the copies what its original reads of the originals, if its texts refer to none
of them. -/
theorem reads_pasted (hnone : NoInnerReference source) (scope : AttrScope)
    {outputs outputs' : Outputs} (hcorr : Corresponding (renamed ids) source outputs outputs')
    {n : CanvasNode} (hn : n ∈ source.chosen) :
    reads scope (placeSlice (pasted ids delta) target) outputs'
        (pasteNode (idMap ids.randId (source.chosen.map cloneNode)) delta (cloneNode n)) =
      reads scope source outputs n := by
  have hid : n.id ∈ source.chosenIds := List.mem_map_of_mem hn
  have hconfig : resolveConfigTemplates scope (runConfig n) outputs' =
      resolveConfigTemplates scope (runConfig n) outputs := by
    refine resolveConfig_congr scope fun b hb => ?_
    have htaken : b ∈ taken source target :=
      mem_taken_of_referred (List.mem_append_left _ (chosen_sublist source n hn)) hb
    refine hcorr.others b (hnone n hn b hb) fun hcopy => ?_
    obtain ⟨a, ha, rfl⟩ := List.mem_map.1 hcopy
    exact renamed_notMem ids ha htaken
  have hwired : resolveDataInputs (renamed ids n.id)
        ((placeSlice (pasted ids delta) target).edges.map runEdge) outputs' =
      resolveDataInputs n.id (source.edges.map runEdge) outputs := by
    calc
      resolveDataInputs (renamed ids n.id)
          ((placeSlice (pasted ids delta) target).edges.map runEdge) outputs' =
        resolveDataInputs (renamed ids n.id) ((pasted ids delta).edges.map runEdge) outputs' := by
          rw [← filter_placed ids delta]
          refine (resolveDataInputs_filter _ fun e _ hfalse hwired => ?_).symm
          rw [hwired.2] at hfalse
          exact absurd (List.mem_map_of_mem hid) (of_decide_eq_false hfalse)
      _ = resolveDataInputs n.id (source.inner.map runEdge) outputs :=
        resolveDataInputs_forall₂ (wired_pasted ids delta hcorr hid)
      _ = resolveDataInputs n.id (source.edges.map runEdge) outputs := by
          rw [← filter_inner]
          refine resolveDataInputs_filter _ fun e he hfalse hwired => ?_
          obtain ⟨wire, hwire, rfl⟩ := List.mem_map.1 he
          have hout : wire.source ∉ source.chosenIds := fun hsource =>
            of_decide_eq_false hfalse ⟨hsource, hwired.2 ▸ hid⟩
          have hlookup : outputs.lookup (runEdge wire).source = none :=
            hcorr.outside wire.source hout ⟨wire, hwire, rfl⟩
          rw [lookupOutput, hlookup]
  change (resolveConfigTemplates scope (runConfig n) outputs' >>= fun config => Outcome.ok
    (config, resolveDataInputs (renamed ids n.id)
      ((placeSlice (pasted ids delta) target).edges.map runEdge) outputs')) = _
  rw [hconfig, hwired]
  rfl

/-- A value without a reference to a selected node is copied as it is. -/
theorem copiedValue_self {rename : String → String} {chosen : List String} {v : Json}
    (h : ∀ s, v = .str s → ∀ a ∈ references s, a.1 ∉ chosen) : CopiedValue rename chosen v v := by
  cases v with
  | str s =>
    refine List.forall₂_same.2 fun piece hpiece => ?_
    cases piece with
    | chr c => exact rfl
    | tok a text =>
      have ha : a ∈ references s := List.mem_filterMap.2 ⟨_, hpiece, rfl⟩
      change a = (if a.1 ∈ chosen then rename a.1 else a.1, a.2)
      rw [if_neg (h s rfl a ha)]
  | _ => rfl

/-- A reference that is kept where it should be renamed is to a node with its old name. -/
theorem rename_eq_of_copiedValue {rename : String → String} {chosen : List String} {s : String}
    (h : CopiedValue rename chosen (.str s) (.str s)) {a : String × String}
    (ha : a ∈ references s) (hchosen : a.1 ∈ chosen) : rename a.1 = a.1 := by
  obtain ⟨piece, hpiece, htok⟩ := List.mem_filterMap.1 ha
  have hcopied := List.forall₂_same.1 h piece hpiece
  cases piece with
  | chr c => cases htok
  | tok b text =>
    obtain rfl : b = a := Option.some.inj htok
    have hname : b = (if b.1 ∈ chosen then rename b.1 else b.1, b.2) := hcopied
    rw [if_pos hchosen] at hname
    exact (congrArg Prod.fst hname).symm

theorem copiedUnder_pasted (hnone : NoInnerReference source) :
    CopiedUnder (renamed ids) source target delta (pasted ids delta) := by
  obtain ⟨hedges, hids⟩ := pasted_edges ids delta
  refine ⟨fun a ha b hb => renamed_injective ids ha hb, fun a ha n hn heq => ?_, ?_, hedges, ?_,
    fun e he e' he' heq => ?_, fun e he hend => ?_, fun scope outputs outputs' hcorr => ?_⟩
  · exact renamed_notMem ids ha (heq ▸ mem_taken_of_node hn)
  · rw [pasted_nodes, List.forall₂_map_right_iff]
    refine List.forall₂_same.2 fun n hn => ⟨rfl, rfl, rfl, rfl, ?_⟩
    refine List.forall₂_same.2 fun field hfield => ⟨rfl, copiedValue_self fun s hs a ha => ?_⟩
    exact hnone n hn a.1 (mem_referred hfield hs ha)
  · rw [hids]
    exact (List.nodup_range' 1).map ids.injective
  · obtain ⟨k, -, hk⟩ := List.mem_map.1 (hids ▸ List.mem_map_of_mem he)
    refine ids.fresh k (hk.trans heq.symm ▸ mem_taken_of_edge (List.mem_append_right _ he') ?_)
    exact List.mem_cons_self
  · rcases List.mem_append.1 he with hold | hnew
    · obtain ⟨old, hmem, rfl⟩ := List.mem_map.1 hold
      have hends : old.source ∈ taken source target ∧ old.target ∈ taken source target :=
        ends_mem_taken (List.mem_append_right _ hmem)
      rcases hend with hend | hend
      · obtain ⟨a, ha, heq⟩ := List.mem_map.1 hend
        exact absurd (heq ▸ hends.1) (renamed_notMem ids ha)
      · obtain ⟨a, ha, heq⟩ := List.mem_map.1 hend
        exact absurd (heq ▸ hends.2) (renamed_notMem ids ha)
    · exact hnew
  · rw [pasted_nodes, List.forall₂_map_right_iff]
    exact List.forall₂_same.2 fun n hn => reads_pasted ids delta hnone scope hcorr hn

/-- A paste that is a copy has no reference among the selected nodes. -/
theorem noInnerReference_of_copiedUnder {rename : String → String}
    (h : CopiedUnder rename source target delta (pasted ids delta)) : NoInnerReference source := by
  intro n hn name hname hchosen
  obtain ⟨field, hfield, hmem⟩ := List.mem_flatMap.1 hname
  obtain ⟨key, value⟩ := field
  cases value with
  | str s =>
    obtain ⟨a, ha, rfl⟩ := List.mem_map.1 hmem
    have hnodes := h.nodes
    rw [pasted_nodes, List.forall₂_map_right_iff] at hnodes
    have hcopied := List.forall₂_same.1 (List.forall₂_same.1 hnodes n hn).config _ hfield
    have hold := rename_eq_of_copiedValue hcopied.2 ha hchosen
    obtain ⟨m, hm, hid⟩ := List.mem_map.1 hchosen
    exact h.new a.1 hchosen m (List.mem_append_left _ (chosen_sublist source m hm))
      (hid.trans hold.symm)
  | _ => exact absurd hmem List.not_mem_nil

end

theorem captureSelection_eq {source slice : Canvas} (h : captureSelection source = some slice) :
    slice = ⟨source.chosen.map cloneNode, source.inner.map cloneEdge⟩ := by
  unfold captureSelection at h
  split at h
  · cases h
  · exact (Option.some.inj h).symm

/-- What is copied and pasted is an isomorphic copy of the selection that is wired to itself, with
every reference to a selected node naming its copy and with the same data read, if and only if no
text in the configuration of a selected node refers to a selected node. -/
theorem paste_isCopy_iff (source target : Canvas) (ids : FreshIds (taken source target))
    (delta : Point) {slice : Canvas} (h : captureSelection source = some slice) :
    IsCopy source target delta (instantiateSlice ids.randId slice delta) ↔
      NoInnerReference source := by
  rw [captureSelection_eq h]
  constructor
  · rintro ⟨rename, hcopied⟩
    exact noInnerReference_of_copiedUnder ids delta hcopied
  · exact fun hnone => ⟨renamed ids, copiedUnder_pasted ids delta hnone⟩

/-! ## A constant and a notification -/

/-- Two selected nodes, the second with what it is to show. -/
def twoNodes (message : String) (edges : List CanvasEdge) : Canvas where
  nodes := [
    { id := "a", position := ⟨0, 0⟩, blockType := "data.constant", config := [],
      label := "Constant", animDelay := none, selected := true },
    { id := "b", position := ⟨0, 100⟩, blockType := "action.notify",
      config := [("message", .str message)], label := "Notify", animDelay := none,
      selected := true }]
  edges := edges

/-- The constant is wired into the notification. -/
def wiredNodes : Canvas :=
  twoNodes "hello" [
    { id := "e", source := "a", target := "b", sourceHandle := some "data:value"
      targetHandle := some "data:message", data := none, selected := false }]

/-- The notification names the constant in its text. -/
def namingNodes : Canvas := twoNodes "\x7b\x7ba.value\x7d\x7d" []

/-- Pasted on an empty canvas, the constant is wired into the notification again. -/
theorem paste_isCopy_wired : ∃ slice, captureSelection wiredNodes = some slice ∧
    IsCopy wiredNodes ⟨[], []⟩ ⟨32, 32⟩
      (instantiateSlice (longIds (taken wiredNodes ⟨[], []⟩)).randId slice ⟨32, 32⟩) := by
  have hnone : NoInnerReference wiredNodes := by
    unfold NoInnerReference
    decide +kernel
  exact ⟨_, rfl, (paste_isCopy_iff wiredNodes ⟨[], []⟩ (longIds _) ⟨32, 32⟩ rfl).2 hnone⟩

/-- The copy of a notification that names the constant goes on naming the original. -/
theorem not_isCopy_naming : ∃ slice, captureSelection namingNodes = some slice ∧
    ¬ IsCopy namingNodes ⟨[], []⟩ ⟨32, 32⟩
      (instantiateSlice (longIds (taken namingNodes ⟨[], []⟩)).randId slice ⟨32, 32⟩) := by
  have hinner : ¬ NoInnerReference namingNodes := by
    unfold NoInnerReference
    decide +kernel
  refine ⟨_, rfl, ?_⟩
  rintro ⟨rename, hcopied⟩
  exact hinner (noInnerReference_of_copiedUnder (longIds _) ⟨32, 32⟩ hcopied)

end Konnekt.Editor
