import Mathlib
import Konnekt.Correctness.PreviewAgreement
import Konnekt.Scheduler.Manifests

/-!
# What a preview runs

A preview runs the blocks without control ports, on its own node and upstream of
it. Of the native blocks these touch nothing outside the run. The descriptor of a
manifest block says nothing about the executor it is bound to.
-/

namespace Konnekt.Scheduler

open Go

variable {W : Type} {svc : Services W} {execs execs' : Executor → ExecFunc W}
  {files : List ManifestFile}

/-- The preview calls no executor with effects outside the run: it is the same whatever is put in
the place of those. -/
def RunsNothing (svc : Services W) (execs : Executor → ExecFunc W) (files : List ManifestFile)
    (g : Graph) (nodeID : String) (w : W) : Prop :=
  ∀ execs' : Executor → ExecFunc W, (∀ x, x.effectFree = true → execs' x = execs x) →
    previewNode svc (schedulerRegistry execs' files) g nodeID w =
      previewNode svc (schedulerRegistry execs files) g nodeID w

/-- No manifest block without control ports is bound to an executor with effects. -/
def ValueBlocksEffectFree (files : List ManifestFile) : Prop :=
  ∀ id b x, registered files id = some (b, x) → b.source = "manifest" → isPureData b = true →
    x.effectFree = true

/-! ## The registry -/

theorem registerAll_append (blocks blocks' : List (BlockDef × ExecFunc W)) (r : BlockRegistry W) :
    registerAll (blocks ++ blocks') r = registerAll blocks' (registerAll blocks r) :=
  List.foldl_append

theorem loadBlock_fst (path : String) (acc : BlockRegistry W × List String) (b : BlockDef) :
    (loadBlock execs path acc b).1 = registerAll (bound execs
      (((primitiveMap b.primitive).map fun x => ({ b with source := "manifest" }, x)).toList))
      acc.1 := by
  unfold loadBlock
  simp only
  cases primitiveMap b.primitive with
  | none => rfl
  | some x =>
    simp only [Option.map_some, Option.toList_some, bound, List.map_cons, List.map_nil, registerAll,
      List.foldl_cons, List.foldl_nil]
    cases acc.1.registerBlock { b with source := "manifest" } (execs x) <;> rfl

theorem loadFile_fst (acc : BlockRegistry W × List String) (file : ManifestFile) :
    (loadFile execs acc file).1 = registerAll (bound execs (manifestBlocks [file])) acc.1 := by
  rw [manifestBlocks, List.flatMap_singleton, loadFile]
  cases file.content with
  | error m => rfl
  | ok defs =>
    dsimp only
    induction defs generalizing acc with
    | nil => rfl
    | cons b defs ih =>
      rw [List.foldl_cons, ih, loadBlock_fst, List.filterMap_cons]
      cases primitiveMap b.primitive <;> rfl

/-- Loading registers the blocks that name a primitive, in order. -/
theorem loadManifests_fst (r : BlockRegistry W) :
    (loadManifests execs files r).1 = registerAll (bound execs (manifestBlocks files)) r := by
  suffices h : ∀ acc : BlockRegistry W × List String, (files.foldl (loadFile execs) acc).1 =
      registerAll (bound execs (manifestBlocks files)) acc.1 from h (r, [])
  intro acc
  induction files generalizing acc with
  | nil => rfl
  | cons file files ih =>
    have hsplit : manifestBlocks (file :: files) = manifestBlocks [file] ++ manifestBlocks files := by
      unfold manifestBlocks
      rw [← List.flatMap_append, List.singleton_append]
    have hbound : bound execs (manifestBlocks (file :: files)) =
        bound execs (manifestBlocks [file]) ++ bound execs (manifestBlocks files) := by
      rw [hsplit]
      exact List.map_append
    rw [List.foldl_cons, ih, loadFile_fst, hbound, registerAll_append]

theorem lookup_schedulerRegistry (id : String) :
    (schedulerRegistry execs files).lookup id =
      (registered files id).map fun b => ⟨b.1, execs b.2⟩ := by
  rw [schedulerRegistry, loadManifests_fst, ← registerAll_append, lookup_registerAll,
    AList.lookup_empty, Option.none_or, bound, bound, ← List.map_append, List.find?_map,
    Option.map_map]
  rfl

/-! ## Registries that previews cannot tell apart -/

/-- The same descriptors, and the same executors under those without control ports. -/
def Alike (reg reg' : BlockRegistry W) : Prop :=
  ∀ id, Option.Rel (fun e e' => e'.blockDef = e.blockDef ∧
    (isPureData e.blockDef = true → e'.exec = e.exec)) (reg.lookup id) (reg'.lookup id)

theorem Alike.cases {reg reg' : BlockRegistry W} (h : Alike reg reg') (id : String) :
    (reg.lookup id = none ∧ reg'.lookup id = none) ∨
      ∃ e e', reg.lookup id = some e ∧ reg'.lookup id = some e' ∧ e'.blockDef = e.blockDef ∧
        (isPureData e.blockDef = true → e'.exec = e.exec) := by
  have hrel := h id
  cases hlookup : reg.lookup id with
  | none =>
    rw [hlookup] at hrel
    cases hlookup' : reg'.lookup id with
    | none => exact .inl ⟨rfl, rfl⟩
    | some e' =>
      rw [hlookup'] at hrel
      cases hrel
  | some e =>
    rw [hlookup] at hrel
    cases hlookup' : reg'.lookup id with
    | none =>
      rw [hlookup'] at hrel
      cases hrel
    | some e' =>
      rw [hlookup', Option.rel_some_some] at hrel
      exact .inr ⟨e, e', rfl, rfl, hrel⟩

/-- The surroundings of a run with another registry. -/
def RunEnv.withRegistry (env : RunEnv W) (reg : BlockRegistry W) : RunEnv W :=
  { env with registry := reg }

theorem ensureDataOutputs_alike {env : RunEnv W} {reg : BlockRegistry W}
    (h : Alike env.registry reg) (n : Nat) :
    ensureDataOutputs (env.withRegistry reg) n = ensureDataOutputs env n := by
  induction n with
  | zero => rfl
  | succ n ih =>
    funext visiting nodeID st
    simp only [ensureDataOutputs, ih]
    simp only [RunEnv.withRegistry]
    cases env.graph.nodeByID nodeID with
    | none => simp only
    | some node =>
      rcases h.cases node.type with ⟨hnone, hnone'⟩ | ⟨e, e', he, he', hdef, hexec⟩
      · simp only [hnone, hnone']
      · simp only [he, he', hdef]
        cases hpure : isPureData e.blockDef with
        | false => simp only [Bool.false_eq_true, if_false]
        | true =>
          rw [hexec hpure]
          rfl

theorem previewState_alike {env : RunEnv W} {reg : BlockRegistry W} (h : Alike env.registry reg)
    (nodeID : String) (w : W) :
    previewState (env.withRegistry reg) nodeID w = previewState env nodeID w := by
  have hpull : pullDataDependencies (env.withRegistry reg) = pullDataDependencies env := by
    funext id st
    unfold pullDataDependencies
    rw [ensureDataOutputs_alike h]
    rfl
  have hgather : gatherAttribute (env.withRegistry reg) = gatherAttribute env := by
    funext st n
    unfold gatherAttribute
    rw [hpull]
    rfl
  unfold previewState
  rw [hgather, hpull]
  rfl

theorem simulateNode_alike {reg reg' : BlockRegistry W} (h : Alike reg reg') (n : Node)
    (ctx : ExecContext) (w : W) : simulateNode reg' n ctx w = simulateNode reg n ctx w := by
  have hblock : simulateBlock reg' n ctx w = simulateBlock reg n ctx w := by
    unfold simulateBlock
    rcases h.cases n.type with ⟨hnone, hnone'⟩ | ⟨e, e', he, he', hdef, hexec⟩
    · simp only [hnone, hnone']
    · simp only [he, he', hdef]
      cases hpure : isPureData e.blockDef with
      | false => simp only [Bool.false_eq_true, if_false]
      | true => rw [hexec hpure]
  unfold simulateNode
  rw [hblock]

theorem previewNode_alike {reg reg' : BlockRegistry W} (h : Alike reg reg') (g : Graph)
    (nodeID : String) (w : W) : previewNode svc reg' g nodeID w = previewNode svc reg g nodeID w := by
  have henv : previewEnv svc reg' g w = (previewEnv svc reg g w).withRegistry reg' := rfl
  have hexec : execContext ((previewEnv svc reg g w).withRegistry reg') =
      execContext (previewEnv svc reg g w) := rfl
  have hstate : previewState ((previewEnv svc reg g w).withRegistry reg') nodeID w =
      previewState (previewEnv svc reg g w) nodeID w := previewState_alike h nodeID w
  unfold previewNode
  simp only [henv, hexec, hstate, simulateNode_alike h]

/-! ## Which executors a preview calls -/

/-- The native blocks without control ports touch nothing outside the run. -/
theorem nativeBlocks_effectFree :
    ∀ b ∈ nativeBlocks, b.1.source = "native" ∧ (isPureData b.1 = true → b.2.effectFree = true) := by
  decide

theorem source_of_mem_manifestBlocks {b : BlockDef × Executor} (h : b ∈ manifestBlocks files) :
    b.1.source = "manifest" := by
  obtain ⟨file, -, hfile⟩ := List.mem_flatMap.1 h
  cases hcontent : file.content with
  | error m =>
    rw [hcontent] at hfile
    cases hfile
  | ok defs =>
    rw [hcontent] at hfile
    obtain ⟨blockDef, -, hblock⟩ := List.mem_filterMap.1 hfile
    obtain ⟨x, -, rfl⟩ := Option.map_eq_some_iff.1 hblock
    rfl

theorem alike_of_valueBlocksEffectFree (h : ValueBlocksEffectFree files)
    (hsame : ∀ x : Executor, x.effectFree = true → execs' x = execs x) :
    Alike (schedulerRegistry execs files) (schedulerRegistry execs' files) := by
  intro id
  rw [lookup_schedulerRegistry, lookup_schedulerRegistry]
  cases hreg : registered files id with
  | none => exact .none
  | some b =>
    refine .some ⟨rfl, fun hpure => hsame _ ?_⟩
    rcases List.mem_append.1 (List.mem_of_find?_eq_some hreg) with hnative | hmanifest
    · exact (nativeBlocks_effectFree b hnative).2 hpure
    · exact h id b.1 b.2 hreg (source_of_mem_manifestBlocks hmanifest) hpure

/-! ## A value block with an effect -/

/-- A graph of a single node. -/
def probeGraph (type : String) : Graph where
  id := "g"
  name := "probe"
  serverID := "s1"
  enabled := true
  nodes := [⟨"n", type, ∅⟩]
  edges := []
  createdAt := 0
  updatedAt := 0

/-- The block types a preview describes without looking at the registry. -/
def describedTypes : List String :=
  ["data.writeAttribute", "action.notify", "action.command", "action.rcon", "action.httpRequest",
    "data.serverAttribute"]

/-- The preview of a single value block runs its executor. -/
theorem previewNode_probe {reg : BlockRegistry W} {type m : String} {entry : BlockEntry W}
    (htype : type ∉ describedTypes) (hentry : reg.lookup type = some entry)
    (hpure : isPureData entry.blockDef = true) (hexec : entry.exec = fun _ _ => .panic m) (w : W) :
    previewNode svc reg (probeGraph type) "n" w = .panic m := by
  simp only [describedTypes, List.mem_cons, List.not_mem_nil, or_false, not_or] at htype
  have hnode : (probeGraph type).nodeByID "n" = some ⟨"n", type, ∅⟩ := rfl
  have hstate : previewState (previewEnv svc reg (probeGraph type) w) "n" w = .ok ⟨∅, ∅, w⟩ := by
    have hgather : gatherAttribute (previewEnv svc reg (probeGraph type) w) ⟨∅, ∅, w⟩
        ⟨"n", type, ∅⟩ = .ok ⟨∅, ∅, w⟩ := by
      unfold gatherAttribute
      exact if_pos (.inl htype.1)
    unfold previewState
    change ([⟨"n", type, ∅⟩] : List Node).foldlM _ _ >>= _ = _
    rw [List.foldlM_cons, hgather]
    rfl
  have hctx : ∃ ctx, execContext (previewEnv svc reg (probeGraph type) w) ⟨∅, ∅, w⟩
      ⟨"n", type, ∅⟩ = .ok ctx := ⟨_, rfl⟩
  obtain ⟨ctx, hctx⟩ := hctx
  have hattrs : previewAttributes ⟨"n", type, ∅⟩ ctx.config ctx.attrs = .ok ([], true) := by
    unfold previewAttributes
    simp [htype.1, refNames]
  have hsim : simulateNode reg ⟨"n", type, ∅⟩ ctx w = .panic m := by
    simp [simulateNode, htype, simulateBlock, hentry, hpure, hexec]
  unfold previewNode
  simp only [hnode, hstate, hctx, hattrs, hsim, Outcome.ok_bind, Outcome.panic_bind]

theorem registered_of_native {b : BlockDef × Executor} {id : String}
    (h : nativeBlocks.find? (·.1.id == id) = some b) : registered files id = some b := by
  rw [registered, List.find?_append, h]
  rfl

/-- The ids of the described types are those of native blocks. -/
theorem not_mem_describedTypes {id : String} {b : BlockDef} {x : Executor}
    (hreg : registered files id = some (b, x)) (hsource : b.source = "manifest") :
    id ∉ describedTypes := by
  intro hmem
  have hnative : ∀ type ∈ describedTypes, (nativeBlocks.find? (·.1.id == type)).isSome = true := by
    decide
  obtain ⟨found, hfound⟩ := Option.isSome_iff_exists.1 (hnative id hmem)
  rw [registered_of_native hfound] at hreg
  cases hreg
  have hsource' := (nativeBlocks_effectFree _ (List.mem_of_find?_eq_some hfound)).1
  exact absurd (hsource.symm.trans hsource') (by decide)

/-- Whatever the graph and the node, a preview calls only executors without effects outside the
run, if and only if no manifest block without control ports is bound to another one. -/
theorem preview_runsNothing_iff (svc : Services W) (execs : Executor → ExecFunc W)
    (files : List ManifestFile) (w : W) :
    (∀ g nodeID, RunsNothing svc execs files g nodeID w) ↔ ValueBlocksEffectFree files := by
  constructor
  · intro h id b x hreg hsource hpure
    by_contra heffect
    have hpanics : ∀ m, previewNode svc (schedulerRegistry execs files) (probeGraph id) "n" w =
        .panic m := by
      intro m
      have hsame : ∀ y : Executor, y.effectFree = true →
          Function.update execs x (fun _ _ => .panic m) y = execs y := by
        intro y hy
        refine Function.update_of_ne ?_ _ _
        rintro rfl
        exact heffect hy
      have hentry : (schedulerRegistry (Function.update execs x fun _ _ => .panic m) files).lookup
          id = some ⟨b, fun _ _ => .panic m⟩ := by
        rw [lookup_schedulerRegistry, hreg, Option.map_some, Function.update_self]
      rw [← h (probeGraph id) "n" _ hsame]
      exact previewNode_probe (not_mem_describedTypes hreg hsource) hentry hpure rfl w
    have hsame := (hpanics "a").symm.trans (hpanics "b")
    exact absurd (Outcome.panic.inj hsame) (by decide)
  · intro h g nodeID execs' hsame
    exact previewNode_alike (alike_of_valueBlocksEffectFree h hsame) g nodeID w

/-! ## A command sent by a preview -/

/-- A manifest block with no ports that sends a command. -/
def sayManifest : ManifestFile where
  path := "blocks/say.json"
  content := .ok [{ id := "custom.say", label := "Say", primitive := "command" }]

def sayGraph : Graph where
  id := "g"
  name := "say"
  serverID := "s1"
  enabled := true
  nodes := [⟨"n", "custom.say", GoMap.ofList [("command", .str "stop")]⟩]
  edges := []
  createdAt := 0
  updatedAt := 0

/-- The executors on a host that logs, with failures in the place of those that are not
embedded. -/
def loggedExecutor : Executor → ExecFunc (Logged Unit) :=
  nativeExecutor (loggedHost onlineHost) fun _ e w => finish e w (.fail "not available") []

/-- The manifest is accepted, and previewing a node of its block stops the server. -/
theorem not_runsNothing_say :
    (loadManifests loggedExecutor [sayManifest]
        (registerAll (bound loggedExecutor nativeBlocks) ∅)).2 = [] ∧
      ¬ RunsNothing (loggedHost onlineHost).toServices loggedExecutor [sayManifest] sayGraph "n"
        ((), []) := by
  have hsends : previewNode (loggedHost onlineHost).toServices
      (schedulerRegistry loggedExecutor [sayManifest]) sayGraph "n" ((), []) =
        .ok (⟨"n", [], ["command = stop"], true⟩, ((), [.command "s1" "stop"])) := by
    decide +kernel
  refine ⟨by decide +kernel, fun h => ?_⟩
  have hother := h (Function.update loggedExecutor .execCommand fun _ _ => .panic "called") ?_
  · rw [hsends] at hother
    have hpanic : previewNode (loggedHost onlineHost).toServices
        (schedulerRegistry (Function.update loggedExecutor .execCommand fun _ _ => .panic "called")
          [sayManifest]) sayGraph "n" ((), []) = .panic "called" := by
      decide +kernel
    rw [hpanic] at hother
    cases hother
  · intro x hx
    refine Function.update_of_ne ?_ _ _
    rintro rfl
    cases hx

end Konnekt.Scheduler
