import Konnekt.Editor.GraphMapping
import Konnekt.Scheduler.Blocks
import Konnekt.Scheduler.Validate

/-!
# Data wires in the editor and in the engine

The engine reads the type of an end off strings only and knows the names of its own
table. The editor turns whatever stands in the configuration into text and also
finds the names every object inherits. The two agree on a wire unless an end is
read differently and the editor then minds the pair.
-/

namespace Konnekt.Editor

open Go Js Scheduler

/-! ## What settles the type of an end -/

/-- The value a port's type is read from, if there is one. -/
def rawType (blockDef : Option BlockDef) (portId : String) (side : Side)
    (config : GoMap Json) : Option Json :=
  let ports := blockDef.map fun d => if side = .input then d.dataInputs else d.dataOutputs
  (ports.bind fun ps => ps.find? (·.id == portId)).bind fun port =>
    if port.type = "auto" then config.lookup "type" else some (.str port.type)

/-- The text of that value, if it has one. -/
def typeText : Option Json → Option String
  | none => some ""
  | some raw => raw.key

/-- Both sides read the value alike: it is a string that names no inherited property, or
another value whose text names nothing at all. -/
def ReadAlike : Option Json → Prop
  | none => True
  | some (.str s) => s ∉ objectPrototype
  | some raw => ∃ text, raw.key = some text ∧ text ∉ objectPrototype ∧
      text ∉ typeAliases.map Prod.fst

/-- The editor lets an output whose type has the one text into an input with the other. -/
def TextsFit (src tgt : String) : Prop :=
  lookupAlias src = .unresolved ∨ lookupAlias tgt = .unresolved ∨
    lookupAlias src = lookupAlias tgt ∨ lookupAlias tgt = .string ∨
    lookupAlias src = .bool ∧ lookupAlias tgt = .number

/-- What the engine makes of the value once it is saved. -/
private def savedType : Option Json → ResolvedDataType
  | some (.str s) => normalizeDataType s
  | _ => .unresolved

private def ofSaved : ResolvedDataType → ResolvedType
  | .string => .string
  | .number => .number
  | .bool => .bool
  | .unresolved => .unresolved

/-! ## The two tables -/

private theorem lookupAlias_of_mem {text : String} (h : text ∈ objectPrototype) :
    lookupAlias text = .inherited text ∧ normalizeDataType text = .unresolved := by
  have hall : ∀ t ∈ objectPrototype,
      lookupAlias t = .inherited t ∧ normalizeDataType t = .unresolved := by decide
  exact hall text h

private theorem lookupAlias_of_alias {text : String} (h : text ∈ typeAliases.map Prod.fst) :
    lookupAlias text = ofSaved (normalizeDataType text) := by
  have hall : ∀ t ∈ typeAliases.map Prod.fst,
      lookupAlias t = ofSaved (normalizeDataType t) := by decide
  exact hall text h

private theorem lookupAlias_of_unknown {text : String} (hname : text ∉ objectPrototype)
    (halias : text ∉ typeAliases.map Prod.fst) :
    lookupAlias text = .unresolved ∧ normalizeDataType text = .unresolved := by
  constructor
  · have hnone : typeAliases.lookup text = none := by
      refine List.lookup_eq_none_iff.2 fun e he => ?_
      exact bne_iff_ne.2 fun heq => halias (heq ▸ List.mem_map_of_mem he)
    rw [lookupAlias, hnone]
    exact if_neg hname
  · simp only [typeAliases, List.map_cons, List.map_nil, List.mem_cons, List.not_mem_nil,
      or_false, not_or] at halias
    simp [normalizeDataType, halias]

private theorem lookupAlias_of_not_mem {text : String} (h : text ∉ objectPrototype) :
    lookupAlias text = ofSaved (normalizeDataType text) := by
  by_cases halias : text ∈ typeAliases.map Prod.fst
  · exact lookupAlias_of_alias halias
  · obtain ⟨heditor, hengine⟩ := lookupAlias_of_unknown h halias
    rw [heditor, hengine]
    rfl

/-- A value that counts as false names nothing. -/
theorem normalizeType_eq (raw : Option Json) :
    normalizeType raw = (typeText raw).map lookupAlias := by
  cases raw with
  | none => rfl
  | some v =>
    rw [normalizeType, typeText]
    split_ifs with hfalsy
    · cases v with
      | null => decide
      | bool b =>
        cases b
        · decide
        · cases hfalsy
      | num f =>
        simp only [Json.falsy, Bool.or_eq_true, beq_iff_eq] at hfalsy
        obtain rfl | rfl := hfalsy <;> decide
      | str s =>
        obtain rfl : s = "" := by simpa [Json.falsy] using hfalsy
        decide
      | arr elems => cases hfalsy
      | obj fields => cases hfalsy
    · rfl

/-! ## The two readings -/

private theorem normalizeType_of_readAlike {raw : Option Json} (h : ReadAlike raw) :
    normalizeType raw = some (ofSaved (savedType raw)) := by
  rw [normalizeType_eq]
  cases raw with
  | none => rfl
  | some v =>
    cases v with
    | str s =>
      have hs : s ∉ objectPrototype := h
      rw [typeText, Json.key, Option.map_some, lookupAlias_of_not_mem hs]
      rfl
    | _ =>
      obtain ⟨text, hkey, hnames⟩ := h
      rw [typeText, hkey, Option.map_some, (lookupAlias_of_unknown hnames.1 hnames.2).1]
      rfl

/-- A value that is read differently tells the engine nothing. -/
private theorem savedType_of_not_readAlike {raw : Option Json} (h : ¬ ReadAlike raw) :
    savedType raw = .unresolved := by
  cases raw with
  | none => rfl
  | some v =>
    cases v with
    | str s =>
      have hs : s ∈ objectPrototype := by
        by_contra hs
        exact h hs
      exact (lookupAlias_of_mem hs).2
    | _ => rfl

private theorem portTypesCompatible_ofSaved (src tgt : ResolvedDataType) :
    portTypesCompatible (ofSaved src) (ofSaved tgt) = dataTypesCompatible src tgt := by
  cases src <;> cases tgt <;> rfl

private theorem portTypesCompatible_lookupAlias (src tgt : String) :
    portTypesCompatible (lookupAlias src) (lookupAlias tgt) = true ↔ TextsFit src tgt := by
  simp only [portTypesCompatible, TextsFit, Bool.or_eq_true, Bool.and_eq_true, beq_iff_eq,
    or_assoc]

private theorem resolveDataPortType_eq (blockDef : Option BlockDef) (portId : String)
    (side : Side) (config : GoMap Json) :
    resolveDataPortType blockDef portId side (some config) =
      normalizeType (rawType blockDef portId side config) := by
  unfold resolveDataPortType rawType
  dsimp only
  generalize Option.bind _ _ = port
  cases port with
  | none => rfl
  | some p =>
    simp only [Option.bind_some]
    split_ifs <;> rfl

private theorem resolveDataPortType_saved (blockDef : BlockDef) (portID : String) (side : Side)
    (n : FlowNode) :
    Scheduler.resolveDataPortType blockDef portID (decide (side = .output)) (savedNode n).config =
      savedType (rawType (some blockDef) portID side n.config) := by
  have hports : (if decide (side = .output) then blockDef.dataOutputs else blockDef.dataInputs) =
      if side = .input then blockDef.dataInputs else blockDef.dataOutputs := by
    cases side <;> rfl
  unfold Scheduler.resolveDataPortType rawType
  dsimp only [Option.map_some, Option.bind_some]
  rw [hports]
  generalize List.find? _ _ = port
  cases port with
  | none => rfl
  | some p =>
    simp only [Option.bind_some]
    split_ifs with hauto
    · rw [configString, savedNode, GoMap.lookup_mapVals]
      cases n.config.lookup "type" with
      | none => rfl
      | some v =>
        cases v with
        | num f => cases f <;> rfl
        | _ => rfl
    · rfl

/-! ## Handles and nodes -/

private theorem isDataHandle_data (port : String) : isDataHandle ("data:" ++ port) = true := by
  rw [isDataHandle, cutPrefix_append]
  rfl

private theorem stripData_data (port : String) : stripData ("data:" ++ port) = port := by
  rw [stripData, trimPrefix, cutPrefix_append]
  rfl

private theorem stripKind_data (port : String) : stripKind ("data:" ++ port) = port := by
  have hctrl : cutPrefix "ctrl:" ("data:" ++ port) = none := by
    have hdata : "data:".toList = ['d', 'a', 't', 'a', ':'] := by decide
    have hpre : "ctrl:".toList = ['c', 't', 'r', 'l', ':'] := by decide
    rw [cutPrefix, String.toList_append, hdata, hpre]
    rfl
  rw [stripKind, hctrl]
  exact stripData_data port

/-- A data edge of a canvas between two different nodes, each the only one with its id. -/
structure DataWire (nodes : List FlowNode) where
  edge : FlowEdge
  src : FlowNode
  tgt : FlowNode
  srcPort : String
  tgtPort : String
  sourceHandle : edge.sourceHandle = some ("data:" ++ srcPort)
  targetHandle : edge.targetHandle = some ("data:" ++ tgtPort)
  source : edge.source = src.id
  target : edge.target = tgt.id
  different : src.id ≠ tgt.id
  src_mem : src ∈ nodes
  tgt_mem : tgt ∈ nodes
  src_only : ∀ n ∈ nodes, n.id = src.id → n = src
  tgt_only : ∀ n ∈ nodes, n.id = tgt.id → n = tgt

private theorem find?_only {nodes : List FlowNode} {n : FlowNode} (hmem : n ∈ nodes)
    (honly : ∀ m ∈ nodes, m.id = n.id → m = n) :
    nodes.find? (·.id == n.id) = some n := by
  cases hfind : nodes.find? (·.id == n.id) with
  | none => exact absurd (beq_self_eq_true n.id) (List.find?_eq_none.1 hfind n hmem)
  | some m =>
    have hid := List.find?_some hfind
    rw [honly m (List.mem_of_find?_eq_some hfind) (beq_iff_eq.1 hid)]

private theorem nodeByID_flowToGraph {nodes : List FlowNode} {n : FlowNode} (info : GraphMeta)
    (now : Int) (edges : List FlowEdge) (hmem : n ∈ nodes)
    (honly : ∀ m ∈ nodes, m.id = n.id → m = n) :
    (flowToGraph info now nodes edges).nodeByID n.id = some (savedNode n) := by
  rw [Graph.nodeByID, flowToGraph, ← List.map_reverse, List.find?_map]
  have hfind := find?_only (List.mem_reverse.2 hmem) fun m hm => honly m (List.mem_reverse.1 hm)
  rw [show ((·.id == n.id) : Scheduler.Node → Bool) ∘ savedNode = (·.id == n.id) from rfl, hfind]
  rfl

private theorem savedNode_type (n : FlowNode) : (savedNode n).type = n.blockType := rfl

/-! ## Agreement -/

section

variable {W : Type} {nodes : List FlowNode}

/-- The definitions the editor was given: those of the registry. -/
def defMap (reg : BlockRegistry W) (type : String) : Option BlockDef :=
  (reg.lookup type).map BlockEntry.blockDef

namespace DataWire

variable (w : DataWire nodes) (reg : BlockRegistry W)

/-- The value the type of the wire's output is read from. -/
def rawSource : Option Json :=
  rawType (defMap reg w.src.blockType) w.srcPort .output w.src.config

/-- The value the type of the wire's input is read from. -/
def rawTarget : Option Json :=
  rawType (defMap reg w.tgt.blockType) w.tgtPort .input w.tgt.config

private theorem isValidConnection_eq :
    isValidConnection w.edge nodes (defMap reg) = (do
      let src ← normalizeType (w.rawSource reg)
      let tgt ← normalizeType (w.rawTarget reg)
      return portTypesCompatible src tgt) := by
  unfold isValidConnection
  rw [w.source, w.target, w.sourceHandle, w.targetHandle, if_neg w.different,
    find?_only w.src_mem w.src_only, find?_only w.tgt_mem w.tgt_only]
  simp only [Option.getD_some, isDataHandle_data, stripData_data, Option.bind_some,
    Option.map_some, resolveDataPortType_eq]
  rfl

private theorem dataTypeIssue_eq_none (info : GraphMeta) (now : Int) (edges : List FlowEdge) :
    dataTypeIssue (flowToGraph info now nodes edges) reg (savedEdge w.edge) = none ↔
      dataTypesCompatible (savedType (w.rawSource reg)) (savedType (w.rawTarget reg)) = true := by
  unfold dataTypeIssue
  simp only [savedEdge, w.source, w.target, w.sourceHandle, w.targetHandle, Option.getD_some,
    isDataHandle_data, stripKind_data, if_true, nodeByID_flowToGraph info now edges w.src_mem
    w.src_only, nodeByID_flowToGraph info now edges w.tgt_mem w.tgt_only, Option.bind_eq_bind,
    Option.bind_some]
  rw [rawSource, rawTarget, defMap, defMap, savedNode_type, savedNode_type]
  cases hsrc : reg.lookup w.src.blockType with
  | none =>
    simp [rawType, savedType, dataTypesCompatible]
  | some srcEntry =>
    cases htgt : reg.lookup w.tgt.blockType with
    | none =>
      simp [rawType, savedType, dataTypesCompatible]
    | some tgtEntry =>
      simp only [Option.bind_some, Option.map_some]
      rw [← resolveDataPortType_saved, ← resolveDataPortType_saved]
      exact ite_eq_left_iff.trans ⟨fun h => by_contra fun hfit => Option.some_ne_none _ (h hfit),
        fun hfit hnot => absurd hfit hnot⟩

/-- The editor accepts a wire whose ends have texts that fit. -/
private theorem isValidConnection_iff :
    isValidConnection w.edge nodes (defMap reg) = some true ↔
      ∃ src tgt, typeText (w.rawSource reg) = some src ∧ typeText (w.rawTarget reg) = some tgt ∧
        TextsFit src tgt := by
  rw [isValidConnection_eq, normalizeType_eq, normalizeType_eq]
  cases typeText (w.rawSource reg) with
  | none => simp
  | some src => cases typeText (w.rawTarget reg) with
    | none => simp
    | some tgt => simp [portTypesCompatible_lookupAlias]

/-- Of two ends that are read alike the two sides think the same. -/
private theorem isValidConnection_of_readAlike (hsrc : ReadAlike (w.rawSource reg))
    (htgt : ReadAlike (w.rawTarget reg)) :
    isValidConnection w.edge nodes (defMap reg) =
      some (dataTypesCompatible (savedType (w.rawSource reg)) (savedType (w.rawTarget reg))) := by
  rw [isValidConnection_eq, normalizeType_of_readAlike hsrc, normalizeType_of_readAlike htgt,
    ← portTypesCompatible_ofSaved]
  rfl

/-- An end that is read differently leaves the engine nothing to object to. -/
private theorem dataTypesCompatible_of_not_readAlike
    (h : ¬ (ReadAlike (w.rawSource reg) ∧ ReadAlike (w.rawTarget reg))) :
    dataTypesCompatible (savedType (w.rawSource reg)) (savedType (w.rawTarget reg)) = true := by
  rcases not_and_or.1 h with hsrc | htgt
  · simp [dataTypesCompatible, savedType_of_not_readAlike hsrc]
  · simp [dataTypesCompatible, savedType_of_not_readAlike htgt]

end DataWire

/-- The editor accepts a data edge exactly when the engine reports no issue for it in the
saved graph, if and only if both ends are read alike or their types have texts that fit. -/
theorem wireAgrees_iff (w : DataWire nodes) (reg : BlockRegistry W) (info : GraphMeta)
    (now : Int) (edges : List FlowEdge) :
    (isValidConnection w.edge nodes (defMap reg) = some true ↔
      dataTypeIssue (flowToGraph info now nodes edges) reg (savedEdge w.edge) = none) ↔
    (ReadAlike (w.rawSource reg) ∧ ReadAlike (w.rawTarget reg)) ∨
      ∃ src tgt, typeText (w.rawSource reg) = some src ∧ typeText (w.rawTarget reg) = some tgt ∧
        TextsFit src tgt := by
  rw [w.dataTypeIssue_eq_none, ← w.isValidConnection_iff]
  by_cases halike : ReadAlike (w.rawSource reg) ∧ ReadAlike (w.rawTarget reg)
  · refine iff_of_true ?_ (.inl halike)
    rw [w.isValidConnection_of_readAlike reg halike.1 halike.2, Option.some.injEq]
  · rw [iff_true_right (w.dataTypesCompatible_of_not_readAlike reg halike)]
    exact (or_iff_right halike).symm

end

/-! ## A type named after an inherited property -/

/-- A constant whose type is set to `constructor`. -/
def namedConstant : FlowNode :=
  ⟨"c", "data.constant", GoMap.ofList [("type", .str "constructor"), ("value", .str "1")]⟩

/-- A sum the constant is wired into. -/
def namedSum : FlowNode := ⟨"s", "data.mathOp", GoMap.ofList [("op", .str "+")]⟩

def namedWire : DataWire [namedConstant, namedSum] where
  edge := ⟨"e", "c", "s", some "data:value", some "data:a", some "data"⟩
  src := namedConstant
  tgt := namedSum
  srcPort := "value"
  tgtPort := "a"
  sourceHandle := rfl
  targetHandle := rfl
  source := rfl
  target := rfl
  different := by decide
  src_mem := List.mem_cons_self
  tgt_mem := List.mem_cons_of_mem _ List.mem_cons_self
  src_only := by simp [namedConstant, namedSum]
  tgt_only := by simp [namedConstant, namedSum]

/-- A constant of the type `constructor` may not be wired into a sum in the editor, and the
engine has nothing against it. -/
theorem not_wireAgrees_constructor :
    ¬ (isValidConnection namedWire.edge [namedConstant, namedSum]
          (defMap (builtinRegistry idleHost)) = some true ↔
        dataTypeIssue (flowToGraph ⟨"g", "named", true, 0⟩ 0 [namedConstant, namedSum]
          [namedWire.edge]) (builtinRegistry idleHost) (savedEdge namedWire.edge) = none) := by
  decide +kernel

end Konnekt.Editor
