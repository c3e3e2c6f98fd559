import Konnekt.Correctness.Runs
import Konnekt.Run.Acyclic

/-!
# Pulled values and evaluation from scratch

The outputs of a pure-data node are recorded when it is first pulled and reused for
the rest of the run. A pull agrees with evaluation from scratch as long as what has
been recorded is still what the nodes give on the recorded values.
-/

namespace Konnekt.Scheduler

open Go Relation Worklist

/-- A data edge leads from `b` into `a`. -/
def Wired (g : Graph) (a b : String) : Prop :=
  ∃ e ∈ g.edges, e.kind = "data" ∧ e.target = a ∧ e.source = b

section

variable {W : Type} (env : RunEnv W)

/-- The node of an id and its block, if it is a pure-data node. -/
def pureNode (id : String) : Option (Node × BlockEntry W) :=
  (env.graph.nodeByID id).bind fun node => (env.registry.lookup node.type).bind fun entry =>
    if isPureData entry.blockDef then some (node, entry) else none

/-! ## Evaluation from scratch -/

/-- What a node gives when it is evaluated on some outputs. -/
def valueOn (node : Node) (entry : BlockEntry W) (st : RunState W) (outputs : Outputs) :
    Outcome (GoMap Value) := do
  let ctx ← execContext env { st with outputs := outputs } node
  let r ← entry.exec ctx st.world
  return r.dataOut

/-- The loop over the data edges into a node: pure-data sources are evaluated anew. -/
def freshSources (eval : String → Outcome (GoMap Value)) (nodeID : String) :
    List Edge → Outputs → Outcome Outputs
  | [], outputs => .ok outputs
  | e :: es, outputs =>
    if (e.kind = "data" ∧ e.target = nodeID) ∧ (pureNode env e.source).isSome then do
      let out ← eval e.source
      freshSources eval nodeID es (outputs.insert e.source out)
    else freshSources eval nodeID es outputs

/-- A pure-data node evaluated recursively over the outputs recorded in a state: of the
pure-data nodes it is wired to, none keeps the value that was recorded. -/
def evaluateScratch (st : RunState W) : Nat → String → Outcome (GoMap Value)
  | 0, _ => .panic outOfBudget
  | n + 1, id => match pureNode env id with
    | none => .ok ∅
    | some (node, entry) => do
      let outputs ← freshSources env (evaluateScratch st n) id env.graph.edges st.outputs
      valueOn env node entry st outputs

/-! ## What agreement rests on -/

/-- The pure-data nodes of the graph always give an output and change nothing else. -/
def PureExecutors : Prop :=
  ∀ id node entry, pureNode env id = some (node, entry) → ∀ st ctx,
    execContext env st node = .ok ctx → ∃ result out,
      entry.exec ctx st.world = .ok ⟨result, out, ctx.attrs.custom, st.world⟩ ∧
        out.isEmpty = false

/-- The settings of a node refer to no pure-data node but those wired into it: a template
pulls nothing. -/
def SettingsApart (id : String) : Prop :=
  ∀ node entry, pureNode env id = some (node, entry) → ∀ scope (outputs outputs' : Outputs),
    (∀ b, pureNode env b = none ∨ Wired env.graph id b → outputs.lookup b = outputs'.lookup b) →
    resolveConfigTemplates scope node.config outputs =
      resolveConfigTemplates scope node.config outputs'

/-- What is recorded for a pure-data node is what the node gives on the recorded values, and
its pure-data sources are recorded with it. -/
structure UpToDate (st : RunState W) (id : String) : Prop where
  sources : (st.outputs.lookup id).isSome = true → ∀ b, Wired env.graph id b →
    (pureNode env b).isSome = true → (st.outputs.lookup b).isSome = true
  value : ∀ node entry out, pureNode env id = some (node, entry) →
    st.outputs.lookup id = some out → valueOn env node entry st st.outputs = .ok out

/-- `b` is `a` or one of the pure-data nodes its value comes from. -/
def DependsOn : String → String → Prop :=
  ReflTransGen fun a b => Wired env.graph a b ∧ (pureNode env b).isSome = true

variable {env}

/-! ## Reading -/

theorem nodeByID_of_pureNode {id : String} {node : Node} {entry : BlockEntry W}
    (h : pureNode env id = some (node, entry)) :
    env.graph.nodeByID id = some node ∧ env.registry.lookup node.type = some entry ∧
      isPureData entry.blockDef = true := by
  unfold pureNode at h
  obtain ⟨n, hnode, hrest⟩ := Option.bind_eq_some_iff.1 h
  obtain ⟨e, hentry, hpure⟩ := Option.bind_eq_some_iff.1 hrest
  split at hpure
  · rename_i hdata
    cases hpure
    exact ⟨hnode, hentry, hdata⟩
  · cases hpure

/-- Wired values depend on the outputs of the sources only. -/
private theorem resolveDataInputs_congr {id : String} {outputs outputs' : Outputs}
    (edges : List Edge) (h : ∀ e ∈ edges, e.kind = "data" ∧ e.target = id →
      outputs.lookup e.source = outputs'.lookup e.source) :
    resolveDataInputs id edges outputs = resolveDataInputs id edges outputs' := by
  unfold resolveDataInputs
  apply List.foldl_ext
  intro dataIn e he
  by_cases hwired : e.kind = "data" ∧ e.target = id
  · simp only [if_pos hwired, lookupOutput, h e he hwired]
  · rw [if_neg hwired, if_neg hwired]

/-- Where the sources of a node agree, the node gives the same. -/
private theorem valueOn_congr {id : String} {node : Node} {entry : BlockEntry W}
    (hnode : pureNode env id = some (node, entry)) (hapart : SettingsApart env id)
    {st st' : RunState W} (hcustom : st.custom = st'.custom) (hworld : st.world = st'.world)
    {outputs outputs' : Outputs}
    (h : ∀ b, pureNode env b = none ∨ Wired env.graph id b →
      outputs.lookup b = outputs'.lookup b) :
    valueOn env node entry st outputs = valueOn env node entry st' outputs' := by
  have hid : node.id = id := Graph.id_of_nodeByID (nodeByID_of_pureNode hnode).1
  have hinputs : resolveDataInputs node.id env.graph.edges outputs =
      resolveDataInputs node.id env.graph.edges outputs' := by
    apply resolveDataInputs_congr
    rintro e he ⟨hkind, htarget⟩
    exact h e.source (.inr ⟨e, he, hkind, htarget.trans hid, rfl⟩)
  have hscope : env.scope { st with outputs := outputs } =
      env.scope { st' with outputs := outputs' } := by
    simp only [RunEnv.scope, hcustom, hworld]
  have hcontext : execContext env { st with outputs := outputs } node =
      execContext env { st' with outputs := outputs' } node := by
    unfold execContext
    rw [hscope, hapart node entry hnode _ outputs outputs' h, hinputs]
  rw [valueOn, valueOn, hcontext, hworld]

/-! ## One pull -/

/-- What a pull keeps: it adds outputs of pure-data nodes and changes nothing else. -/
structure Keeps (env : RunEnv W) (st st' : RunState W) : Prop where
  recorded : ∀ id out, st.outputs.lookup id = some out → st'.outputs.lookup id = some out
  other : ∀ id, pureNode env id = none → st'.outputs.lookup id = st.outputs.lookup id
  custom : st'.custom = st.custom
  world : st'.world = st.world

theorem Keeps.refl (st : RunState W) : Keeps env st st :=
  ⟨fun _ _ h => h, fun _ _ => rfl, rfl, rfl⟩

theorem Keeps.trans {st₁ st₂ st₃ : RunState W} (h : Keeps env st₁ st₂) (h' : Keeps env st₂ st₃) :
    Keeps env st₁ st₃ where
  recorded id out hout := h'.recorded id out (h.recorded id out hout)
  other id hid := (h'.other id hid).trans (h.other id hid)
  custom := h'.custom.trans h.custom
  world := h'.world.trans h.world

theorem Keeps.isSome {st st' : RunState W} (h : Keeps env st st') {id : String}
    (hid : (st.outputs.lookup id).isSome = true) : (st'.outputs.lookup id).isSome = true := by
  obtain ⟨out, hout⟩ := Option.isSome_iff_exists.1 hid
  exact Option.isSome_iff_exists.2 ⟨out, h.recorded id out hout⟩

/-- The evaluation of a pure-data node records what the node gives on the recorded values. -/
private theorem evaluateData_spec (hpure : PureExecutors env) {id : String} {node : Node}
    {entry : BlockEntry W} (hnode : pureNode env id = some (node, entry)) {st st' : RunState W}
    (h : evaluateData env node entry.exec st = .ok st') : ∃ out,
      valueOn env node entry st st.outputs = .ok out ∧
        st' = { st with outputs := st.outputs.insert id out } := by
  have hid : node.id = id := Graph.id_of_nodeByID (nodeByID_of_pureNode hnode).1
  obtain ⟨ctx, hctx, h⟩ := Outcome.bind_eq_ok.1 h
  obtain ⟨result, out, hexec, hout⟩ := hpure id node entry hnode st ctx hctx
  rw [hexec, Outcome.ok_bind, Outcome.pure_eq_ok, Outcome.ok.injEq, hid] at h
  have hattrs : ctx.attrs.custom = st.custom := by
    obtain ⟨config, -, hctx⟩ := Outcome.bind_eq_ok.1 hctx
    cases hctx
    rfl
  refine ⟨out, ?_, ?_⟩
  · show (execContext env st node >>= _) = _
    rw [hctx, Outcome.ok_bind, hexec]
    rfl
  · rw [← h, hattrs]
    simp [hout]

/-- Recording a value that was missing keeps the others. -/
private theorem keeps_insert {id : String} {found : Node × BlockEntry W}
    (hnode : pureNode env id = some found) {st : RunState W}
    (hmissing : st.outputs.lookup id = none) (out : GoMap Value) :
    Keeps env st { st with outputs := st.outputs.insert id out } := by
  refine ⟨fun b o ho => ?_, fun b hb => ?_, rfl, rfl⟩
  · have hbid : b ≠ id := by
      rintro rfl
      rw [hmissing] at ho
      cases ho
    rwa [AList.lookup_insert_ne hbid]
  · have hbid : b ≠ id := by
      rintro rfl
      rw [hnode] at hb
      cases hb
    exact AList.lookup_insert_ne hbid

/-- Recording a value that was missing keeps what is up to date. -/
private theorem upToDate_insert (hacyclic : Acyclic.Holds (Wired env.graph)) {id : String}
    {node : Node} {entry : BlockEntry W} (hnode : pureNode env id = some (node, entry))
    {st : RunState W} (hmissing : st.outputs.lookup id = none)
    (hsources : ∀ b, Wired env.graph id b → (pureNode env b).isSome = true →
      (st.outputs.lookup b).isSome = true)
    {out : GoMap Value} (hout : valueOn env node entry st st.outputs = .ok out) {other : String}
    (hapart : SettingsApart env other) (h : UpToDate env st other) :
    UpToDate env { st with outputs := st.outputs.insert id out } other := by
  have hkeep : ∀ b, (st.outputs.lookup b).isSome = true →
      ((st.outputs.insert id out).lookup b).isSome = true := by
    intro b hb
    by_cases hbid : b = id
    · rw [hbid, AList.lookup_insert]
      rfl
    · rwa [AList.lookup_insert_ne hbid]
  -- what the node reads is what it read before, as it does not read the new value
  have hsame : (∀ b, Wired env.graph other b → b ≠ id) → ∀ n e,
      pureNode env other = some (n, e) →
      valueOn env n e { st with outputs := st.outputs.insert id out } (st.outputs.insert id out) =
        valueOn env n e st st.outputs := by
    intro hread n e hn
    refine valueOn_congr hn hapart rfl rfl fun b hb => ?_
    refine AList.lookup_insert_ne ?_
    rcases hb with hb | hb
    · rintro rfl
      rw [hnode] at hb
      cases hb
    · exact hread b hb
  by_cases hother : other = id
  · subst hother
    refine ⟨fun _ b hb hpureb => hkeep b (hsources b hb hpureb), fun n e o hn ho => ?_⟩
    rw [hnode] at hn
    cases hn
    rw [AList.lookup_insert] at ho
    cases ho
    rw [hsame (fun b hb hbid => hacyclic _ (.single (hbid ▸ hb))) node entry hnode]
    exact hout
  · refine ⟨fun hsome b hb hpureb => ?_, fun n e o hn ho => ?_⟩
    · rw [AList.lookup_insert_ne hother] at hsome
      exact hkeep b (h.sources hsome b hb hpureb)
    · rw [AList.lookup_insert_ne hother] at ho
      have hread : ∀ b, Wired env.graph other b → b ≠ id := by
        rintro b hb rfl
        have hsome := h.sources (by rw [ho]; rfl) b hb (by rw [hnode]; rfl)
        rw [hmissing] at hsome
        cases hsome
      rw [hsame hread n e hn]
      exact h.value n e o hn ho

/-- What a pull of nodes in `R` achieves: it records none but these, and what was up to date
among the nodes in `P` stays so. -/
private structure Pulls (env : RunEnv W) (P R : String → Prop) (st st' : RunState W) : Prop where
  keeps : Keeps env st st'
  within : ∀ id, (st'.outputs.lookup id).isSome = true → (st.outputs.lookup id).isSome = true ∨ R id
  upToDate : (∀ id, P id → UpToDate env st id) → ∀ id, P id → UpToDate env st' id

section

variable {P R : String → Prop}

private theorem Pulls.refl (st : RunState W) : Pulls env P R st st :=
  ⟨.refl st, fun _ => .inl, id⟩

private theorem Pulls.trans {st₁ st₂ st₃ : RunState W} (h : Pulls env P R st₁ st₂)
    (h' : Pulls env P R st₂ st₃) : Pulls env P R st₁ st₃ where
  keeps := h.keeps.trans h'.keeps
  within id hid := (h'.within id hid).elim (h.within id) .inr
  upToDate hup := h'.upToDate (h.upToDate hup)

private theorem Pulls.mono {R' : String → Prop} {st st' : RunState W} (h : Pulls env P R st st')
    (hsub : ∀ id, R id → R' id) : Pulls env P R' st st' :=
  ⟨h.keeps, fun id hid => (h.within id hid).imp_right (hsub id), h.upToDate⟩

/-- The loop over the edges into a node pulls each of its sources. -/
private theorem pullEdges_spec {ensure : String → RunState W → Outcome (RunState W)}
    {nodeID : String} (hensure : ∀ b st st', Wired env.graph nodeID b → ensure b st = .ok st' →
      Pulls env P R st st' ∧ ((pureNode env b).isSome = true → (st'.outputs.lookup b).isSome = true))
    {edges : List Edge} (hedges : edges ⊆ env.graph.edges) {st st' : RunState W}
    (h : pullEdges ensure nodeID edges st = .ok st') :
    Pulls env P R st st' ∧ ∀ e ∈ edges, e.kind = "data" ∧ e.target = nodeID →
      (pureNode env e.source).isSome = true → (st'.outputs.lookup e.source).isSome = true := by
  induction edges generalizing st with
  | nil =>
    cases h
    exact ⟨.refl _, fun e he => nomatch he⟩
  | cons e edges ih =>
    obtain ⟨he, hrest⟩ := List.cons_subset.1 hedges
    rw [pullEdges] at h
    by_cases hwired : e.kind = "data" ∧ e.target = nodeID
    · rw [if_pos hwired] at h
      obtain ⟨mid, hmid, h⟩ := Outcome.bind_eq_ok.1 h
      obtain ⟨hpulls, hsource⟩ := hensure e.source st mid ⟨e, he, hwired.1, hwired.2, rfl⟩ hmid
      obtain ⟨hpulls', hsources⟩ := ih hrest h
      refine ⟨hpulls.trans hpulls', fun e' he' hwired' hpure => ?_⟩
      rcases List.mem_cons.1 he' with rfl | he'
      · exact hpulls'.keeps.isSome (hsource hpure)
      · exact hsources e' he' hwired' hpure
    · rw [if_neg hwired] at h
      obtain ⟨hpulls, hsources⟩ := ih hrest h
      refine ⟨hpulls, fun e' he' hwired' hpure => ?_⟩
      rcases List.mem_cons.1 he' with rfl | he'
      · exact absurd hwired' hwired
      · exact hsources e' he' hwired' hpure

end

/-- A node that is no pure-data node is left alone. -/
private theorem ensureDataOutputs_of_none {n : Nat} {visiting : List String} {id : String}
    (hnode : pureNode env id = none) {st st' : RunState W}
    (h : ensureDataOutputs env n visiting id st = .ok st') : st' = st := by
  cases n with
  | zero => cases h
  | succ n =>
    rw [ensureDataOutputs] at h
    unfold pureNode at hnode
    split at h
    · cases h
      rfl
    · cases hbyID : env.graph.nodeByID id with
      | none =>
        rw [hbyID] at h
        cases h
        rfl
      | some node =>
        cases hentry : env.registry.lookup node.type with
        | none =>
          simp only [hbyID, hentry] at h
          cases h
          rfl
        | some entry =>
          have hdata : ¬ isPureData entry.blockDef = true := by
            intro hdata
            simp [hbyID, hentry, hdata] at hnode
          simp only [hbyID, hentry, if_neg hdata] at h
          cases h
          rfl

/-- A pulled pure-data node has outputs, and what was up to date stays so. -/
private theorem ensureDataOutputs_spec (hacyclic : Acyclic.Holds (Wired env.graph))
    (hpure : PureExecutors env) {P : String → Prop} (hapart : ∀ id, P id → SettingsApart env id)
    (n : Nat) (visiting : List String) (id : String) (st st' : RunState W)
    (hvisiting : ∀ v ∈ visiting, TransGen (Wired env.graph) v id)
    (h : ensureDataOutputs env n visiting id st = .ok st') :
    Pulls env P (ReflTransGen (Wired env.graph) id) st st' ∧
      ((pureNode env id).isSome = true → (st'.outputs.lookup id).isSome = true) := by
  induction n generalizing visiting id st st' with
  | zero => cases h
  | succ n ih =>
    cases hnode : pureNode env id with
    | none =>
      rw [ensureDataOutputs_of_none hnode h]
      exact ⟨.refl st, fun hsome => nomatch hsome⟩
    | some found =>
      rw [ensureDataOutputs] at h
      by_cases hdone : (st.outputs.lookup id).isSome = true ∨ id ∈ visiting
      · rw [if_pos hdone] at h
        cases h
        refine ⟨.refl st, fun _ => hdone.resolve_right fun hmem => ?_⟩
        exact hacyclic id (hvisiting id hmem)
      · rw [if_neg hdone] at h
        obtain ⟨node, entry⟩ := found
        obtain ⟨hbyID, hentry, hdata⟩ := nodeByID_of_pureNode hnode
        simp only [hbyID, hentry, hdata, if_true] at h
        obtain ⟨mid, hmid, h⟩ := Outcome.bind_eq_ok.1 h
        -- the sources come first, and they do not come back to this node
        obtain ⟨hpulls, hsources⟩ : Pulls env P (TransGen (Wired env.graph) id) st mid ∧ _ :=
          pullEdges_spec (fun b st st' hb hens => by
            obtain ⟨hsource, hsome⟩ := ih (id :: visiting) b st st' (fun v hv => by
              rcases List.mem_cons.1 hv with rfl | hv
              · exact .single hb
              · exact (hvisiting v hv).tail hb) hens
            exact ⟨hsource.mono fun c hc => .head' hb hc, hsome⟩) (List.Subset.refl _) hmid
        obtain ⟨out, hout, rfl⟩ := evaluateData_spec hpure hnode h
        have hmissing : mid.outputs.lookup id = none := by
          rw [← Option.not_isSome_iff_eq_none]
          intro hsome
          rcases hpulls.within id hsome with hold | hback
          · exact hdone (.inl hold)
          · exact hacyclic id hback
        have hrecorded : Pulls env P (ReflTransGen (Wired env.graph) id) mid
            { mid with outputs := mid.outputs.insert id out } := by
          refine ⟨keeps_insert hnode hmissing out, fun b hb => ?_, fun hup b hb => ?_⟩
          · by_cases hbid : b = id
            · exact .inr (hbid ▸ .refl)
            · rw [AList.lookup_insert_ne hbid] at hb
              exact .inl hb
          · apply upToDate_insert hacyclic hnode hmissing ?_ hout (hapart b hb) (hup b hb)
            rintro c ⟨e, he, hkind, htarget, rfl⟩ hpurec
            exact hsources e he ⟨hkind, htarget⟩ hpurec
        refine ⟨(hpulls.mono fun b hb => hb.to_reflTransGen).trans hrecorded, fun _ => ?_⟩
        rw [AList.lookup_insert]
        rfl

/-! ## Agreement -/

/-- If the sources evaluate to what is recorded for them, the loop ends with their values. -/
private theorem freshSources_spec {eval : String → Outcome (GoMap Value)} {id : String}
    {recorded : Outputs} (heval : ∀ b, Wired env.graph id b → (pureNode env b).isSome = true →
      ∃ out, recorded.lookup b = some out ∧ eval b = .ok out)
    {edges : List Edge} (hedges : edges ⊆ env.graph.edges) (outputs : Outputs) : ∃ outputs',
      freshSources env eval id edges outputs = .ok outputs' ∧
      (∀ b, outputs.lookup b = recorded.lookup b → outputs'.lookup b = recorded.lookup b) ∧
      ∀ e ∈ edges, e.kind = "data" ∧ e.target = id → (pureNode env e.source).isSome = true →
        outputs'.lookup e.source = recorded.lookup e.source := by
  induction edges generalizing outputs with
  | nil => exact ⟨outputs, rfl, fun _ h => h, fun e he => nomatch he⟩
  | cons e edges ih =>
    obtain ⟨he, hrest⟩ := List.cons_subset.1 hedges
    by_cases hfresh : (e.kind = "data" ∧ e.target = id) ∧ (pureNode env e.source).isSome = true
    · obtain ⟨⟨hkind, htarget⟩, hpure⟩ := hfresh
      obtain ⟨out, hrecorded, hvalue⟩ := heval e.source ⟨e, he, hkind, htarget, rfl⟩ hpure
      obtain ⟨outputs', hloop, hkept, hread⟩ := ih hrest (outputs.insert e.source out)
      have hsource : (outputs.insert e.source out).lookup e.source = recorded.lookup e.source := by
        rw [AList.lookup_insert, hrecorded]
      refine ⟨outputs', ?_, fun b hb => hkept b ?_, fun e' he' hwired' hpure' => ?_⟩
      · rw [freshSources, if_pos ⟨⟨hkind, htarget⟩, hpure⟩, hvalue]
        exact hloop
      · by_cases hbe : b = e.source
        · rw [hbe]
          exact hsource
        · rw [AList.lookup_insert_ne hbe]
          exact hb
      · rcases List.mem_cons.1 he' with rfl | he'
        · exact hkept _ hsource
        · exact hread e' he' hwired' hpure'
    · obtain ⟨outputs', hloop, hkept, hread⟩ := ih hrest outputs
      refine ⟨outputs', ?_, hkept, fun e' he' hwired' hpure' => ?_⟩
      · rw [freshSources, if_neg hfresh]
        exact hloop
      · rcases List.mem_cons.1 he' with rfl | he'
        · exact absurd ⟨hwired', hpure'⟩ hfresh
        · exact hread e' he' hwired' hpure'

private theorem mem_ids_of_pureNode {id : String} (h : (pureNode env id).isSome = true) :
    id ∈ env.graph.nodes.map Node.id := by
  obtain ⟨⟨node, entry⟩, hnode⟩ := Option.isSome_iff_exists.1 h
  have hbyID := (nodeByID_of_pureNode hnode).1
  rw [← Graph.id_of_nodeByID hbyID]
  exact List.mem_map_of_mem (List.mem_reverse.1 (List.mem_of_find?_eq_some hbyID))

/-- Where all that a node depends on is up to date, evaluation from scratch gives what is
recorded for it. The path holds the nodes whose evaluation asks for this one. -/
private theorem evaluateScratch_eq (hacyclic : Acyclic.Holds (Wired env.graph))
    {st pulled : RunState W} (hkeeps : Keeps env st pulled) (n : Nat) (path : List String)
    (id : String) (out : GoMap Value) (hpath : (id :: path).IsChain (Function.swap (Wired env.graph)))
    (hids : id :: path ⊆ env.graph.nodes.map Node.id)
    (hlen : env.graph.nodes.length < n + path.length)
    (hpure : (pureNode env id).isSome = true) (hout : pulled.outputs.lookup id = some out)
    (hup : ∀ b, DependsOn env id b → UpToDate env pulled b ∧ SettingsApart env b) :
    evaluateScratch env st n id = .ok out := by
  induction n generalizing path id out with
  | zero =>
    have hle := hacyclic.swap.length_le hpath hids
    rw [List.length_map, List.length_cons] at hle
    omega
  | succ n ih =>
    obtain ⟨⟨node, entry⟩, hnode⟩ := Option.isSome_iff_exists.1 hpure
    obtain ⟨hself, hapart⟩ := hup id .refl
    have hsources : ∀ b, Wired env.graph id b → (pureNode env b).isSome = true →
        ∃ o, pulled.outputs.lookup b = some o ∧ evaluateScratch env st n b = .ok o := by
      intro b hb hpureb
      obtain ⟨o, ho⟩ := Option.isSome_iff_exists.1 (hself.sources (by rw [hout]; rfl) b hb hpureb)
      refine ⟨o, ho, ih (id :: path) b o (.cons_cons hb hpath) ?_ ?_ hpureb ho ?_⟩
      · exact List.cons_subset.2 ⟨mem_ids_of_pureNode hpureb, hids⟩
      · rw [List.length_cons]
        omega
      · exact fun c hc => hup c (.head ⟨hb, hpureb⟩ hc)
    obtain ⟨outputs, hfresh, hkept, hread⟩ :=
      freshSources_spec hsources (List.Subset.refl _) st.outputs
    have hvalue := hself.value node entry out hnode hout
    rw [evaluateScratch, hnode]
    dsimp only
    rw [hfresh, Outcome.ok_bind, ← hvalue]
    apply valueOn_congr hnode hapart hkeeps.custom.symm hkeeps.world.symm
    intro b hb
    cases hpureb : pureNode env b with
    | none => exact hkept b (hkeeps.other b hpureb).symm
    | some found =>
      rw [hpureb] at hb
      obtain ⟨e, he, hkind, htarget, rfl⟩ := hb.resolve_left (Option.some_ne_none found)
      exact hread e he ⟨hkind, htarget⟩ (by rw [hpureb]; rfl)

/-- Where the data edges have no cycle and pure-data nodes always give an output, the value
a node reads along a wire from a pure-data node is the one evaluated from scratch over the
outputs recorded when the node starts, if all that has been recorded of what it depends on
is up to date then. -/
theorem pulled_eq_scratch (env : RunEnv W) (hacyclic : Acyclic.Holds (Wired env.graph))
    (hpure : PureExecutors env) {nodeID : String} {st pulled : RunState W}
    (hpull : pullDataDependencies env nodeID st = .ok pulled) {e : Edge}
    (he : e ∈ env.graph.edges) (hwired : e.kind = "data" ∧ e.target = nodeID)
    (hsource : (pureNode env e.source).isSome = true)
    (hup : ∀ b, DependsOn env e.source b → UpToDate env st b ∧ SettingsApart env b) :
    ∃ out, evaluateScratch env st (pullBudget env.graph) e.source = .ok out ∧
      lookupOutput pulled.outputs e.source e.sourcePort = (out.lookup e.sourcePort).getD .nil := by
  obtain ⟨hpulls, hsources⟩ : Pulls env (DependsOn env e.source) (fun _ => True) st pulled ∧ _ :=
    pullEdges_spec (fun b st st' hb hens => by
      obtain ⟨hb, hsome⟩ := ensureDataOutputs_spec hacyclic hpure (fun c hc => (hup c hc).2) _ []
        b st st' (fun v hv => nomatch hv) hens
      exact ⟨hb.mono fun _ _ => trivial, hsome⟩) (List.Subset.refl _) hpull
  obtain ⟨out, hout⟩ := Option.isSome_iff_exists.1 (hsources e he hwired hsource)
  refine ⟨out, ?_, by rw [lookupOutput, hout]⟩
  have hpulled := hpulls.upToDate fun c hc => (hup c hc).1
  apply evaluateScratch_eq hacyclic hpulls.keeps _ [] e.source out (.singleton _) ?_ ?_ hsource hout
  · exact fun c hc => ⟨hpulled c hc, (hup c hc).2⟩
  · exact List.cons_subset.2 ⟨mem_ids_of_pureNode hsource, List.nil_subset _⟩
  · rw [pullBudget, List.length_nil]
    omega

end

/-! ## A value that was recorded too early -/

/-- A notification, a condition and another notification in a row. Both notifications show a
constant that the result of the condition is wired into. -/
def staleGraph : Graph where
  id := "g"
  name := "stale"
  serverID := "s1"
  enabled := true
  nodes := [⟨"t", "trigger.interval", ∅⟩, ⟨"b", "action.notify", ∅⟩,
    ⟨"a", "control.condition", ∅⟩, ⟨"c", "action.notify", ∅⟩, ⟨"s", "data.constant", ∅⟩]
  edges := [⟨"1", "control", "t", "onComplete", "b", "trigger"⟩,
    ⟨"2", "control", "b", "onComplete", "a", "trigger"⟩,
    ⟨"3", "control", "a", "onTrue", "c", "trigger"⟩,
    ⟨"4", "data", "a", "result", "s", "value"⟩, ⟨"5", "data", "s", "value", "b", "message"⟩,
    ⟨"6", "data", "s", "value", "c", "message"⟩]
  createdAt := 0
  updatedAt := 0

/-- A run of it, in a world where no time passes. -/
def staleRun : Run Unit where
  svc := idleHost.toServices
  registry := builtinRegistry idleHost
  running := false
  runID := "r"
  launch := ⟨staleGraph, "t", "time:interval", GoMap.ofList [("t", ∅), ("trigger", ∅)]⟩
  world := ()

private theorem acyclic_stale : Acyclic.Holds (Wired staleRun.env.graph) := by
  apply Acyclic.holds_of_rank fun id => if id = "a" then 2 else if id = "s" then 1 else 0
  rintro a b ⟨e, he, hkind, rfl, rfl⟩
  have hall : ∀ e ∈ staleGraph.edges, e.kind = "data" →
      (if e.target = "a" then 2 else if e.target = "s" then 1 else 0) <
        if e.source = "a" then 2 else if e.source = "s" then 1 else 0 := by
    decide
  exact hall e he hkind

private theorem pure_stale {id : String} (h : (pureNode staleRun.env id).isSome = true) :
    id = "s" := by
  have hids : id ∈ ["t", "b", "a", "c", "s"] := mem_ids_of_pureNode h
  have hall : ∀ id ∈ ["t", "b", "a", "c", "s"],
      (pureNode staleRun.env id).isSome = true → id = "s" := by
    decide +kernel
  exact hall id hids h

private theorem pureNode_stale {node : Node} {entry : BlockEntry Unit}
    (h : pureNode staleRun.env "s" = some (node, entry)) :
    node = ⟨"s", "data.constant", ∅⟩ ∧ entry.exec = execConstant := by
  obtain ⟨hnode, hentry, -⟩ := nodeByID_of_pureNode h
  obtain rfl : node = ⟨"s", "data.constant", ∅⟩ := (Option.some.inj hnode).symm
  have hregistry : staleRun.env.registry.lookup "data.constant" =
      ((builtinBlocks idleHost).find? (·.1.id == "data.constant")).map fun b => ⟨b.1, b.2⟩ :=
    lookup_builtinRegistry idleHost "data.constant"
  rw [hregistry] at hentry
  exact ⟨rfl, by rw [← Option.some.inj hentry]⟩

/-- A port no data edge leads to gets no value. -/
private theorem lookup_resolveDataInputs {id port : String} {outputs : Outputs}
    (edges : List Edge) (h : ∀ e ∈ edges, e.kind = "data" ∧ e.target = id → e.targetPort ≠ port) :
    (resolveDataInputs id edges outputs).lookup port = none := by
  rw [resolveDataInputs]
  refine List.foldlRecOn (motive := fun dataIn : GoMap Value => dataIn.lookup port = none) _ _
    (AList.lookup_empty port) fun dataIn hnone e he => ?_
  split
  · rename_i hwired
    have hport := h e he hwired
    split
    · exact hnone
    · rwa [AList.lookup_insert_ne hport.symm]
  · exact hnone

/-- A constant without a type passes its value on, whatever that is. -/
private theorem execConstant_untyped {e : ExecContext} (h : e.config.lookup "type" = none)
    (w : Unit) : ∃ result out,
      execConstant e w = .ok ⟨result, out, e.attrs.custom, w⟩ ∧ out.isEmpty = false := by
  have htype : e.getString "type" = "" := by rw [ExecContext.getString, h]
  refine ⟨.done "onComplete", GoMap.ofList [("value", .str (e.getString "value"))], ?_, rfl⟩
  unfold execConstant
  simp only [htype]
  rfl

private theorem pureExecutors_stale : PureExecutors staleRun.env := by
  intro id node entry hnode st ctx hctx
  obtain rfl := pure_stale (by rw [hnode]; rfl)
  obtain ⟨rfl, hexec⟩ := pureNode_stale hnode
  obtain ⟨config, hconfig, hctx⟩ := Outcome.bind_eq_ok.1 hctx
  cases hconfig
  cases hctx
  rw [hexec]
  apply execConstant_untyped
  show ((∅ : GoMap Value).overlay
    (resolveDataInputs "s" staleGraph.edges st.outputs)).lookup "type" = none
  rw [GoMap.lookup_overlay, AList.lookup_empty, lookup_resolveDataInputs _ (by decide)]
  rfl

private theorem settingsApart_stale : SettingsApart staleRun.env "s" := by
  intro node entry hnode scope outputs outputs' _
  obtain ⟨rfl, -⟩ := pureNode_stale hnode
  rfl

private theorem admitted_stale : staleRun.Admitted := by
  have hnone : refusal idleHost.toServices (builtinRegistry idleHost) staleGraph () = none := by
    apply refusal_builtinRegistry
    · decide +kernel
    · decide
  exact ⟨rfl, hnone⟩

/-- What the second notification reads, and what the constant would give by then. -/
private def secondReading : Outcome ((List Work × Bool) × Value × Value) := do
  let (c, stopped) ← loop (known staleGraph) (turn staleRun.env) 3 (initialConfig staleRun.launch ())
  let pulled ← pullDataDependencies staleRun.env "c" c.state.run
  let out ← evaluateScratch staleRun.env c.state.run (pullBudget staleGraph) "s"
  return ((c.queue, stopped), lookupOutput pulled.outputs "s" "value",
    (out.lookup "value").getD .nil)

private theorem secondReading_eq :
    secondReading = .ok (([⟨"c", "trigger"⟩], false), .str "", .str "1") := by
  decide +kernel

/-- The second notification still reads the value from before the condition was evaluated,
although the condition's result has been recorded since. -/
theorem not_pulled_eq_scratch_stale : ∃ c pulled out,
    Acyclic.Holds (Wired staleRun.env.graph) ∧ PureExecutors staleRun.env ∧
      staleRun.Reaches c ∧ c.queue = [⟨"c", "trigger"⟩] ∧
      pullDataDependencies staleRun.env "c" c.state.run = .ok pulled ∧
      evaluateScratch staleRun.env c.state.run (pullBudget staleGraph) "s" = .ok out ∧
      lookupOutput pulled.outputs "s" "value" ≠ (out.lookup "value").getD .nil := by
  obtain ⟨⟨c, stopped⟩, hloop, hread⟩ := Outcome.bind_eq_ok.1 secondReading_eq
  obtain ⟨pulled, hpull, hread⟩ := Outcome.bind_eq_ok.1 hread
  obtain ⟨out, hscratch, hread⟩ := Outcome.bind_eq_ok.1 hread
  simp only [Outcome.pure_eq_ok, Outcome.ok.injEq, Prod.mk.injEq] at hread
  obtain ⟨⟨hqueue, rfl⟩, hpulled, hout⟩ := hread
  refine ⟨c, pulled, out, acyclic_stale, pureExecutors_stale, ⟨admitted_stale, ?_⟩, hqueue, hpull,
    hscratch, ?_⟩
  · exact steps_of_loop 3 hloop
  · rw [hpulled, hout]
    decide

/-- For the first notification the constant has not been recorded yet. -/
theorem pulled_eq_scratch_stale : ∃ pulled out,
    pullDataDependencies staleRun.env "b" (initialConfig staleRun.launch ()).state.run =
        .ok pulled ∧
      evaluateScratch staleRun.env (initialConfig staleRun.launch ()).state.run
        (pullBudget staleRun.env.graph) "s" = .ok out ∧
      lookupOutput pulled.outputs "s" "value" = (out.lookup "value").getD .nil := by
  have hreturns : (pullDataDependencies staleRun.env "b"
      (initialConfig staleRun.launch ()).state.run >>= fun _ => Outcome.ok ()) = .ok () := by
    decide +kernel
  obtain ⟨pulled, hpull, -⟩ := Outcome.bind_eq_ok.1 hreturns
  have hmissing : (initialConfig staleRun.launch ()).state.run.outputs.lookup "s" = none := by
    decide +kernel
  have hup : ∀ b, DependsOn staleRun.env "s" b →
      UpToDate staleRun.env (initialConfig staleRun.launch ()).state.run b ∧
        SettingsApart staleRun.env b := by
    intro b hb
    -- the constant is wired to no other pure-data node
    have hself : "s" = b := by
      rcases ReflTransGen.cases_head hb with heq | ⟨c, ⟨hwired, hpure⟩, -⟩
      · exact heq
      · exact absurd (.single (pure_stale hpure ▸ hwired)) (acyclic_stale "s")
    subst hself
    refine ⟨⟨fun hsome => ?_, fun node entry out _ hout => ?_⟩, settingsApart_stale⟩
    · rw [hmissing] at hsome
      cases hsome
    · rw [hmissing] at hout
      cases hout
  obtain ⟨out, hout⟩ := pulled_eq_scratch staleRun.env acyclic_stale pureExecutors_stale hpull
    (e := ⟨"5", "data", "s", "value", "b", "message"⟩) (by decide +kernel) ⟨rfl, rfl⟩
    (by decide +kernel) hup
  exact ⟨pulled, out, hpull, hout⟩

end Konnekt.Scheduler
