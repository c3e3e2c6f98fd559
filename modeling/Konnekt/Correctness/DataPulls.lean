import Konnekt.Correctness.PullAgreement
import Konnekt.Scheduler.Engine
import Mathlib

/-!
# A pull ends, and what it executes twice

Nested evaluations are of distinct nodes, so a pull ends however the data edges run. A node whose
execution recorded an output is done for the rest of the pull; one that records none is executed
again from every path that comes to it.
-/

namespace Konnekt.Scheduler

open Go

/-- A node is executed again only after executions of it that recorded nothing. -/
def RepeatsSilentOnly (executed : List Execution) : Prop :=
  executed.Pairwise fun e f => e.nodeID = f.nodeID → e.recorded = false

theorem RepeatsSilentOnly.countP_le {executed : List Execution} (h : RepeatsSilentOnly executed)
    {id : String} (hid : ∀ e ∈ executed, e.nodeID = id → e.recorded = true) :
    executed.countP (·.nodeID = id) ≤ 1 := by
  induction executed with
  | nil => exact Nat.zero_le 1
  | cons e executed ih =>
    obtain ⟨hfirst, hrest⟩ := List.pairwise_cons.1 h
    by_cases heq : e.nodeID = id
    · have hnone : executed.countP (·.nodeID = id) = 0 := by
        rw [List.countP_eq_zero]
        intro f hf hfid
        have hsilent := hfirst f hf (heq.trans (of_decide_eq_true hfid).symm)
        rw [hid e List.mem_cons_self heq] at hsilent
        cases hsilent
      rw [List.countP_cons, hnone, if_pos (decide_eq_true heq)]
    · rw [List.countP_cons, if_neg (by simpa using heq)]
      exact ih hrest fun f hf => hid f (List.mem_cons_of_mem e hf)

/-- Each execution that records an output is of another node. -/
theorem RepeatsSilentOnly.nodup {executed : List Execution} (h : RepeatsSilentOnly executed) :
    ((executed.filter (·.recorded)).map (·.nodeID)).Nodup := by
  rw [List.Nodup, List.pairwise_map]
  refine (h.filter (·.recorded)).imp_of_mem fun {e f} he _ hsilent heq => ?_
  have hrecorded : e.recorded = true := (List.mem_filter.1 he).2
  rw [hsilent heq] at hrecorded
  cases hrecorded

section

variable {W : Type} {env : RunEnv W}

namespace Pull

/-- What a call leaves of what it was given, and the executions it makes. -/
structure Extends (env : RunEnv W) (new : List Execution) (p p' : Pull W) : Prop where
  visiting : p'.visiting = p.visiting
  executed : p'.executed = p.executed ++ new
  outputs : ∀ id, (p.run.outputs.lookup id).isSome = true →
    (p'.run.outputs.lookup id).isSome = true
  only : ∀ id, (p'.run.outputs.lookup id).isSome = true →
    (p.run.outputs.lookup id).isSome = true ∨ ∃ e ∈ new, e.nodeID = id
  node : ∀ e ∈ new, (env.graph.nodeByID e.nodeID).isSome = true
  missing : ∀ e ∈ new, p.run.outputs.lookup e.nodeID = none
  outside : ∀ e ∈ new, e.nodeID ∉ p.visiting
  recorded : ∀ e ∈ new, e.recorded = true → (p'.run.outputs.lookup e.nodeID).isSome = true
  repeats : RepeatsSilentOnly new

theorem Extends.refl (p : Pull W) : Extends env [] p p where
  visiting := rfl
  executed := (List.append_nil _).symm
  outputs _ h := h
  only _ := Or.inl
  node _ h := absurd h List.not_mem_nil
  missing _ h := absurd h List.not_mem_nil
  outside _ h := absurd h List.not_mem_nil
  recorded _ h := absurd h List.not_mem_nil
  repeats := List.Pairwise.nil

/-- What the second call executes was not done when it started. -/
theorem Extends.trans {new new' : List Execution} {p₁ p₂ p₃ : Pull W}
    (h : Extends env new p₁ p₂) (h' : Extends env new' p₂ p₃) :
    Extends env (new ++ new') p₁ p₃ where
  visiting := h'.visiting.trans h.visiting
  executed := by rw [h'.executed, h.executed, List.append_assoc]
  outputs id hid := h'.outputs id (h.outputs id hid)
  only id hid := by
    rcases h'.only id hid with hid | ⟨e, he, heq⟩
    · exact (h.only id hid).imp_right fun ⟨e, he, heq⟩ => ⟨e, List.mem_append_left _ he, heq⟩
    · exact Or.inr ⟨e, List.mem_append_right _ he, heq⟩
  node e he := (List.mem_append.1 he).elim (h.node e) (h'.node e)
  missing e he := by
    rcases List.mem_append.1 he with he | he
    · exact h.missing e he
    · rw [← Option.not_isSome_iff_eq_none]
      intro hsome
      have := h.outputs e.nodeID hsome
      rw [h'.missing e he] at this
      cases this
  outside e he := by
    rcases List.mem_append.1 he with he | he
    · exact h.outside e he
    · rw [← h.visiting]
      exact h'.outside e he
  recorded e he hrec := by
    rcases List.mem_append.1 he with he | he
    · exact h'.outputs _ (h.recorded e he hrec)
    · exact h'.recorded e he hrec
  repeats := by
    refine List.pairwise_append.2 ⟨h.repeats, h'.repeats, fun e he f hf heq => ?_⟩
    rw [← Bool.not_eq_true]
    intro hrec
    have hsome := h.recorded e he hrec
    rw [heq, h'.missing f hf] at hsome
    cases hsome

/-- The deferred delete takes back the name that was entered. -/
theorem Extends.leave {new : List Execution} {id : String} {p p' : Pull W}
    (h : Extends env new { p with visiting := id :: p.visiting } p') :
    Extends env new p (p'.leave id) where
  visiting := by
    change p'.visiting.erase id = p.visiting
    rw [h.visiting, List.erase_cons_head]
  executed := h.executed
  outputs := h.outputs
  only := h.only
  node := h.node
  missing := h.missing
  outside e he hmem := h.outside e he (List.mem_cons_of_mem id hmem)
  recorded := h.recorded
  repeats := h.repeats

/-- One execution of a node that has no output, and what it may record. -/
theorem extends_single {id : String} (hnode : (env.graph.nodeByID id).isSome = true)
    {p p' : Pull W} (hmissing : p.run.outputs.lookup id = none) (houtside : id ∉ p.visiting)
    (hvisiting : p'.visiting = p.visiting) {recorded : Bool}
    (hexecuted : p'.executed = p.executed ++ [⟨id, recorded⟩])
    (hrecorded : recorded = true → (p'.run.outputs.lookup id).isSome = true)
    (hother : ∀ other ≠ id, p'.run.outputs.lookup other = p.run.outputs.lookup other) :
    Extends env [⟨id, recorded⟩] p p' where
  visiting := hvisiting
  executed := hexecuted
  outputs other hsome := by
    have hne : other ≠ id := by
      rintro rfl
      rw [hmissing] at hsome
      cases hsome
    rwa [hother other hne]
  only other hsome := by
    by_cases heq : other = id
    · exact Or.inr ⟨_, List.mem_singleton_self _, heq.symm⟩
    · rw [hother other heq] at hsome
      exact Or.inl hsome
  node e he := by rwa [List.mem_singleton.1 he]
  missing e he := by rwa [List.mem_singleton.1 he]
  outside e he := by rwa [List.mem_singleton.1 he]
  recorded e he hrec := by
    rw [List.mem_singleton.1 he] at hrec ⊢
    exact hrecorded hrec
  repeats := List.pairwise_singleton _ _

/-- An evaluation executes its node at most once, and leaves the set of names alone. -/
theorem extends_evaluate {node : Node} (hnode : (env.graph.nodeByID node.id).isSome = true)
    (exec : ExecFunc W) {p : Pull W}
    (hmissing : (p.leave node.id).run.outputs.lookup node.id = none)
    (houtside : node.id ∉ (p.leave node.id).visiting) :
    ∃ new, Extends env new (p.leave node.id) ((p.evaluate env node exec).1.leave node.id) := by
  unfold evaluate
  cases execContext env p.run node with
  | err m => exact ⟨[], Extends.refl _⟩
  | panic r => exact ⟨[], Extends.refl _⟩
  | ok ctx =>
    dsimp only
    cases exec ctx p.run.world with
    | err m =>
      refine ⟨[⟨node.id, false⟩], extends_single hnode hmissing houtside ?_ ?_ ?_ ?_⟩
      · rfl
      · rfl
      · exact fun h => absurd h Bool.false_ne_true
      · exact fun _ _ => rfl
    | panic r =>
      refine ⟨[⟨node.id, false⟩], extends_single hnode hmissing houtside ?_ ?_ ?_ ?_⟩
      · rfl
      · rfl
      · exact fun h => absurd h Bool.false_ne_true
      · exact fun _ _ => rfl
    | ok r =>
      refine ⟨[⟨node.id, !r.dataOut.isEmpty⟩], extends_single hnode hmissing houtside ?_ ?_
        (fun h => ?_) fun other hne => ?_⟩
      · rfl
      · rfl
      · have hfull : ¬ r.dataOut.isEmpty = true := by simpa using h
        change ((if r.dataOut.isEmpty = true then p.run.outputs
          else p.run.outputs.insert node.id r.dataOut).lookup node.id).isSome = true
        rw [if_neg hfull, AList.lookup_insert]
        rfl
      · change (if r.dataOut.isEmpty = true then p.run.outputs
          else p.run.outputs.insert node.id r.dataOut).lookup other = p.run.outputs.lookup other
        split
        · rfl
        · exact AList.lookup_insert_ne hne

/-- A call ends after what follows its first part, or with that part's panic. -/
theorem onReturn_cases {ended : Option (Pull W × Outcome Unit)}
    {next : Pull W → Option (Pull W × Outcome Unit)} {p' : Pull W} {o : Outcome Unit}
    (h : onReturn ended next = some (p', o)) :
    (∃ q, ended = some (q, .ok ()) ∧ next q = some (p', o)) ∨ ended = some (p', o) := by
  cases ended with
  | none => cases h
  | some ended =>
    obtain ⟨q, oq⟩ := ended
    cases oq with
    | ok u => exact Or.inl ⟨q, rfl, h⟩
    | err m => exact Or.inr h
    | panic r => exact Or.inr h

/-- What a call does: nothing, or the evaluation of a node that is neither done nor entered. -/
theorem ensureDataOutputs_cases (env : RunEnv W) (id : String) (p : Pull W) :
    (∀ n, ensureDataOutputs env (n + 1) id p = some (p, .ok ()) ∧
      Scheduler.ensureDataOutputs env (n + 1) p.visiting id p.run = .ok p.run) ∨
    ∃ node exec, env.graph.nodeByID id = some node ∧
      (p.run.outputs.lookup id = none ∧ id ∉ p.visiting) ∧
      ∀ n, ensureDataOutputs env (n + 1) id p =
          (onReturn (pullEdges (ensureDataOutputs env n) id env.graph.edges
              { p with visiting := id :: p.visiting })
            fun p => some (p.evaluate env node exec)).map
              (fun ended => (ended.1.leave id, ended.2)) ∧
        Scheduler.ensureDataOutputs env (n + 1) p.visiting id p.run =
          Scheduler.pullEdges (Scheduler.ensureDataOutputs env n (id :: p.visiting)) id
              env.graph.edges p.run >>= evaluateData env node exec := by
  simp only [ensureDataOutputs, Scheduler.ensureDataOutputs]
  by_cases hdone : (p.run.outputs.lookup id).isSome = true ∨ id ∈ p.visiting
  · exact Or.inl fun n => ⟨if_pos hdone, if_pos hdone⟩
  · simp only [if_neg hdone]
    obtain ⟨hmissing, houtside⟩ := not_or.1 hdone
    cases env.graph.nodeByID id with
    | none => exact Or.inl fun n => ⟨rfl, rfl⟩
    | some node =>
      dsimp only
      cases env.registry.lookup node.type with
      | none => exact Or.inl fun n => ⟨rfl, rfl⟩
      | some entry =>
        dsimp only
        by_cases hpure : isPureData entry.blockDef = true
        · simp only [if_pos hpure]
          exact Or.inr ⟨node, entry.exec, rfl,
            ⟨Option.not_isSome_iff_eq_none.1 hmissing, houtside⟩, fun n => ⟨rfl, rfl⟩⟩
        · exact Or.inl fun n => ⟨if_neg hpure, if_neg hpure⟩

/-- The loop makes the executions of the calls it makes. -/
theorem extends_pullEdges {ensure : String → Pull W → Option (Pull W × Outcome Unit)}
    (hensure : ∀ id p p' o, ensure id p = some (p', o) → ∃ new, Extends env new p p')
    (nodeID : String) (edges : List Edge) {p p' : Pull W} {o : Outcome Unit}
    (h : pullEdges ensure nodeID edges p = some (p', o)) : ∃ new, Extends env new p p' := by
  induction edges generalizing p with
  | nil =>
    cases h
    exact ⟨[], Extends.refl _⟩
  | cons e edges ih =>
    rw [pullEdges] at h
    split at h
    · rcases onReturn_cases h with ⟨q, hsource, hrest⟩ | hsource
      · obtain ⟨new, hnew⟩ := hensure e.source p q _ hsource
        obtain ⟨new', hnew'⟩ := ih hrest
        exact ⟨_, hnew.trans hnew'⟩
      · exact hensure e.source p p' o hsource
    · exact ih h

/-- However a call ends, the set of names is as it was, and what it executed again had recorded
nothing. -/
theorem extends_ensureDataOutputs (n : Nat) (id : String) {p p' : Pull W} {o : Outcome Unit}
    (h : ensureDataOutputs env n id p = some (p', o)) : ∃ new, Extends env new p p' := by
  induction n generalizing id p p' o with
  | zero => cases h
  | succ n ih =>
    rcases ensureDataOutputs_cases env id p with hnothing | ⟨node, exec, hnode, hfree, hcall⟩
    · rw [(hnothing n).1] at h
      cases h
      exact ⟨[], Extends.refl p⟩
    · obtain rfl : node.id = id := Graph.id_of_nodeByID hnode
      rw [(hcall n).1] at h
      obtain ⟨⟨q, oq⟩, hended, heq⟩ := Option.map_eq_some_iff.1 h
      cases heq
      rcases onReturn_cases hended with ⟨mid, hpulled, heval⟩ | hpulled
      · obtain ⟨new, hnew⟩ := extends_pullEdges (fun id p p' o => ih id) node.id _ hpulled
        have hleft := hnew.leave
        -- what was executed meanwhile is not this node, which has been entered
        have hmissing : (mid.leave node.id).run.outputs.lookup node.id = none := by
          rw [← Option.not_isSome_iff_eq_none]
          intro hsome
          rcases hnew.only node.id hsome with hsome | ⟨e, he, heq⟩
          · rw [hfree.1] at hsome
            cases hsome
          · exact hnew.outside e he (heq ▸ List.mem_cons_self)
        have houtside : node.id ∉ (mid.leave node.id).visiting := by
          rw [hleft.visiting]
          exact hfree.2
        obtain ⟨new', hnew'⟩ := extends_evaluate (by rw [hnode]; rfl) exec hmissing houtside
        have hq : (mid.evaluate env node exec).1 = q := by rw [Option.some.inj heval]
        rw [hq] at hnew'
        exact ⟨_, hleft.trans hnew'⟩
      · obtain ⟨new, hnew⟩ := extends_pullEdges (fun id p p' o => ih id) node.id _ hpulled
        exact ⟨new, hnew.leave⟩

theorem visiting_ensureDataOutputs {n : Nat} {id : String} {p p' : Pull W} {o : Outcome Unit}
    (h : ensureDataOutputs env n id p = some (p', o)) : p'.visiting = p.visiting := by
  obtain ⟨new, hnew⟩ := extends_ensureDataOutputs n id h
  exact hnew.visiting

/-! ## Every pull ends -/

/-- The nodes that are not being evaluated. -/
def unvisited (env : RunEnv W) (visiting : List String) : List Node :=
  env.graph.nodes.filter fun node => node.id ∉ visiting

/-- Entering a node leaves fewer of them. -/
theorem length_unvisited_lt {id : String} {node : Node}
    (hnode : env.graph.nodeByID id = some node) {visiting : List String} (h : id ∉ visiting) :
    (unvisited env (id :: visiting)).length < (unvisited env visiting).length := by
  have hsub : unvisited env (id :: visiting) =
      (unvisited env visiting).filter fun node => node.id ≠ id := by
    rw [unvisited, unvisited, List.filter_filter]
    refine List.filter_congr fun node _ => ?_
    simp [List.mem_cons, not_or]
  rw [hsub, List.length_filter_lt_length_iff_exists]
  obtain rfl : node.id = id := Graph.id_of_nodeByID hnode
  have hmem : node ∈ env.graph.nodes := List.mem_reverse.1 (List.mem_of_find?_eq_some hnode)
  refine ⟨node, List.mem_filter.2 ⟨hmem, decide_eq_true h⟩, ?_⟩
  simp

/-- The loop ends when its calls do. -/
theorem exists_pullEdges {ensure : String → Pull W → Option (Pull W × Outcome Unit)}
    {visiting : List String}
    (hends : ∀ id p, p.visiting = visiting → ∃ ended, ensure id p = some ended)
    (hkeeps : ∀ id p p' o, ensure id p = some (p', o) → p'.visiting = p.visiting)
    (nodeID : String) (edges : List Edge) {p : Pull W} (hp : p.visiting = visiting) :
    ∃ ended, pullEdges ensure nodeID edges p = some ended := by
  induction edges generalizing p with
  | nil => exact ⟨_, rfl⟩
  | cons e edges ih =>
    rw [pullEdges]
    split
    · obtain ⟨⟨q, o⟩, hsource⟩ := hends e.source p hp
      have hq : q.visiting = visiting := (hkeeps _ _ _ _ hsource).trans hp
      rw [hsource]
      cases o with
      | ok u => exact ih hq
      | err m => exact ⟨_, rfl⟩
      | panic r => exact ⟨_, rfl⟩
    · exact ih hp

/-- Nested calls are of distinct nodes: a call ends with one level more than there are nodes it
can still enter. -/
theorem exists_ensureDataOutputs (n : Nat) (id : String) (p : Pull W)
    (hn : (unvisited env p.visiting).length < n) :
    ∃ ended, ensureDataOutputs env n id p = some ended := by
  induction n generalizing id p with
  | zero => exact absurd hn (Nat.not_lt_zero _)
  | succ n ih =>
    rcases ensureDataOutputs_cases env id p with hnothing | ⟨node, exec, hnode, hfree, hcall⟩
    · exact ⟨_, (hnothing n).1⟩
    · have hless := length_unvisited_lt hnode hfree.2
      have hinner : ∃ ended, pullEdges (ensureDataOutputs env n) id env.graph.edges
          { p with visiting := id :: p.visiting } = some ended :=
        exists_pullEdges (fun other q hq => ih other q (by
            rw [hq]
            exact hless.trans_le (Nat.le_of_lt_succ hn)))
          (fun _ _ _ _ => visiting_ensureDataOutputs) id _ rfl
      obtain ⟨⟨q, o⟩, hinner⟩ := hinner
      rw [(hcall n).1, hinner]
      cases o with
      | ok u => exact ⟨_, rfl⟩
      | err m => exact ⟨_, rfl⟩
      | panic r => exact ⟨_, rfl⟩

theorem onReturn_mono {ended ended' : Option (Pull W × Outcome Unit)}
    {next next' : Pull W → Option (Pull W × Outcome Unit)} {r : Pull W × Outcome Unit}
    (hended : ∀ r, ended = some r → ended' = some r)
    (hnext : ∀ p, next p = some r → next' p = some r) (h : onReturn ended next = some r) :
    onReturn ended' next' = some r := by
  cases ended with
  | none => cases h
  | some first =>
    rw [hended first rfl]
    obtain ⟨q, o⟩ := first
    cases o with
    | ok u => exact hnext q h
    | err m => exact h
    | panic s => exact h

theorem pullEdges_mono {ensure ensure' : String → Pull W → Option (Pull W × Outcome Unit)}
    (hensure : ∀ id p r, ensure id p = some r → ensure' id p = some r) (nodeID : String)
    (edges : List Edge) (p : Pull W) (r : Pull W × Outcome Unit)
    (h : pullEdges ensure nodeID edges p = some r) :
    pullEdges ensure' nodeID edges p = some r := by
  induction edges generalizing p with
  | nil => exact h
  | cons e edges ih =>
    rw [pullEdges] at h ⊢
    split at h
    · rename_i hwired
      rw [if_pos hwired]
      exact onReturn_mono (hensure e.source p) ih h
    · rename_i hwired
      rw [if_neg hwired]
      exact ih p h

/-- A larger budget changes nothing about a call that ends. -/
theorem ensureDataOutputs_mono {n m : Nat} (hnm : n ≤ m) (id : String) (p : Pull W)
    (r : Pull W × Outcome Unit) (h : ensureDataOutputs env n id p = some r) :
    ensureDataOutputs env m id p = some r := by
  induction n generalizing m id p r with
  | zero => cases h
  | succ n ih =>
    cases m with
    | zero => exact absurd hnm (Nat.not_succ_le_zero n)
    | succ m =>
      rcases ensureDataOutputs_cases env id p with hnothing | ⟨node, exec, hnode, hfree, hcall⟩
      · rw [(hnothing m).1, ← (hnothing n).1, h]
      · rw [(hcall n).1] at h
        obtain ⟨ended, hended, heq⟩ := Option.map_eq_some_iff.1 h
        have hmore := onReturn_mono
          (pullEdges_mono (ih (Nat.le_of_succ_le_succ hnm)) id _ _) (fun _ h => h) hended
        rw [(hcall m).1, hmore, Option.map_some, heq]

/-! ## The pull of a run -/

/-- How a call ends for the run: the nesting may be too deep for the budget. -/
def result : Option (Pull W × Outcome Unit) → Outcome (RunState W)
  | none => .panic outOfBudget
  | some (p, o) => o >>= fun _ => .ok p.run

theorem result_onReturn (ended : Option (Pull W × Outcome Unit))
    (next : Pull W → Option (Pull W × Outcome Unit)) {f : RunState W → Outcome (RunState W)}
    (hnext : ∀ p o, ended = some (p, o) → f p.run = result (next p)) :
    (result ended >>= f) = result (onReturn ended next) := by
  cases ended with
  | none => rfl
  | some first =>
    obtain ⟨p, o⟩ := first
    cases o with
    | ok u => exact hnext p _ rfl
    | err m => rfl
    | panic r => rfl

theorem result_pullEdges {ensure : String → Pull W → Option (Pull W × Outcome Unit)}
    {ensure' : String → RunState W → Outcome (RunState W)} {visiting : List String}
    (hsame : ∀ id p, p.visiting = visiting → ensure' id p.run = result (ensure id p))
    (hkeeps : ∀ id p p' o, ensure id p = some (p', o) → p'.visiting = p.visiting)
    (nodeID : String) (edges : List Edge) {p : Pull W} (hp : p.visiting = visiting) :
    Scheduler.pullEdges ensure' nodeID edges p.run =
      result (pullEdges ensure nodeID edges p) := by
  induction edges generalizing p with
  | nil => rfl
  | cons e edges ih =>
    rw [Scheduler.pullEdges, pullEdges]
    split
    · rw [hsame e.source p hp]
      exact result_onReturn _ _ fun q o hsource =>
        ih ((hkeeps e.source p q o hsource).trans hp)
    · exact ih hp

theorem result_evaluate (node : Node) (exec : ExecFunc W) (p : Pull W) :
    evaluateData env node exec p.run = result (some (p.evaluate env node exec)) := by
  unfold evaluateData evaluate
  cases execContext env p.run node with
  | err m => rfl
  | panic r => rfl
  | ok ctx =>
    rw [Outcome.ok_bind]
    dsimp only
    cases exec ctx p.run.world with
    | err m => rfl
    | panic r => rfl
    | ok r => rfl

/-- The engine's pull is this one without the names and the executions. -/
theorem result_ensureDataOutputs (n : Nat) (id : String) (p : Pull W) :
    Scheduler.ensureDataOutputs env n p.visiting id p.run =
      result (ensureDataOutputs env n id p) := by
  induction n generalizing id p with
  | zero => rfl
  | succ n ih =>
    rcases ensureDataOutputs_cases env id p with hnothing | ⟨node, exec, -, -, hcall⟩
    · rw [(hnothing n).1, (hnothing n).2]
      rfl
    · have hpulled := result_pullEdges (fun other q hq => hq ▸ ih other q)
        (fun _ _ _ _ => visiting_ensureDataOutputs) id env.graph.edges
        (p := { p with visiting := id :: p.visiting }) rfl
      have hleave : ∀ ended : Option (Pull W × Outcome Unit),
          result (ended.map fun ended => (ended.1.leave id, ended.2)) = result ended := by
        rintro (- | ⟨q, o⟩)
        · rfl
        · rfl
      rw [(hcall n).1, (hcall n).2, hleave]
      exact (congrArg (· >>= evaluateData env node exec) hpulled).trans
        (result_onReturn _ _ fun q _ _ => result_evaluate node exec q)

theorem result_pullDataDependencies (nodeID : String) (st : RunState W) :
    Scheduler.pullDataDependencies env nodeID st =
      result (pullDataDependencies env (pullBudget env.graph) nodeID ⟨st, [], []⟩) :=
  @result_pullEdges _ _ _ [] (fun id p hp => hp ▸ result_ensureDataOutputs _ id p)
    (fun _ _ _ _ => visiting_ensureDataOutputs) nodeID env.graph.edges (p := ⟨st, [], []⟩) rfl

/-! ## The bounds of a pull -/

/-- A call ends with every budget from the graph's on and then always in the same way, leaves the
set of names as it was, and executes again only what has recorded nothing. -/
def Bounded (env : RunEnv W) (p : Pull W) (call : Nat → Option (Pull W × Outcome Unit)) : Prop :=
  ∃ p' o executed, (∀ n, pullBudget env.graph ≤ n → call n = some (p', o)) ∧
    p'.visiting = p.visiting ∧ p'.executed = p.executed ++ executed ∧
    RepeatsSilentOnly executed ∧
    (∀ id, (∀ e ∈ executed, e.nodeID = id → e.recorded = true) →
      executed.countP (·.nodeID = id) ≤ 1) ∧
    executed.countP (·.recorded) ≤ env.graph.nodes.length

theorem bounded_of_extends {p : Pull W} {call : Nat → Option (Pull W × Outcome Unit)}
    (hends : ∃ ended, call (pullBudget env.graph) = some ended)
    (hmono : ∀ n r, pullBudget env.graph ≤ n → call (pullBudget env.graph) = some r →
      call n = some r)
    (hextends : ∀ p' o, call (pullBudget env.graph) = some (p', o) →
      ∃ new, Extends env new p p') : Bounded env p call := by
  obtain ⟨⟨p', o⟩, hended⟩ := hends
  obtain ⟨new, hnew⟩ := hextends p' o hended
  refine ⟨p', o, new, fun n hn => hmono n _ hn hended, hnew.visiting, hnew.executed, hnew.repeats,
    fun id => hnew.repeats.countP_le, ?_⟩
  have hsub : (new.filter (·.recorded)).map (·.nodeID) ⊆ env.graph.nodes.map (·.id) := by
    intro id hid
    obtain ⟨e, he, rfl⟩ := List.mem_map.1 hid
    obtain ⟨node, hnode⟩ := Option.isSome_iff_exists.1 (hnew.node e (List.mem_filter.1 he).1)
    rw [← Graph.id_of_nodeByID hnode]
    exact List.mem_map_of_mem (List.mem_reverse.1 (List.mem_of_find?_eq_some hnode))
  have hle := (List.subperm_of_subset hnew.repeats.nodup hsub).length_le
  rwa [List.length_map, List.length_map, ← List.countP_eq_length_filter] at hle

end Pull

end

/-- Pulling ends on any wiring, with the set of names as it found it. A node is executed again in
the same pull only after executions that recorded no output, so at most once if each of its
executions records one. -/
theorem pull_bounded {W : Type} (env : RunEnv W) (nodeID : String) (p : Pull W) :
    Pull.Bounded env p (fun n => Pull.pullDataDependencies env n nodeID p) ∧
      Pull.Bounded env p (fun n => Pull.ensureDataOutputs env n nodeID p) := by
  have hless : ∀ visiting, (Pull.unvisited env visiting).length < pullBudget env.graph :=
    fun visiting => Nat.lt_succ_of_le (List.length_filter_le _ _)
  constructor
  · refine Pull.bounded_of_extends ?_ ?_ fun p' o h => ?_
    · exact Pull.exists_pullEdges (fun id q _ => Pull.exists_ensureDataOutputs _ id q (hless _))
        (fun _ _ _ _ => Pull.visiting_ensureDataOutputs) nodeID _ rfl
    · exact fun n r hn => Pull.pullEdges_mono (Pull.ensureDataOutputs_mono hn) nodeID _ p r
    · exact Pull.extends_pullEdges (fun id _ _ _ => Pull.extends_ensureDataOutputs _ id) nodeID _ h
  · refine Pull.bounded_of_extends ?_ ?_ fun p' o h => ?_
    · exact Pull.exists_ensureDataOutputs _ nodeID p (hless _)
    · exact fun n r hn => Pull.ensureDataOutputs_mono hn nodeID p r
    · exact Pull.extends_ensureDataOutputs _ nodeID h

/-! ## A failing node under a diamond -/

/-- Two sums of one division by zero, and their sum. -/
def failingDiamond : Graph where
  id := "g"
  name := ""
  serverID := ""
  enabled := true
  nodes := [⟨"s", "data.mathOp", GoMap.ofList [("op", .str "div")]⟩, ⟨"a", "data.mathOp", ∅⟩,
    ⟨"b", "data.mathOp", ∅⟩, ⟨"c", "data.mathOp", ∅⟩]
  edges := [⟨"1", "data", "s", "result", "a", "a"⟩, ⟨"2", "data", "s", "result", "b", "a"⟩,
    ⟨"3", "data", "a", "result", "c", "a"⟩, ⟨"4", "data", "b", "result", "c", "b"⟩]
  createdAt := 0
  updatedAt := 0

def failingRun : RunEnv Unit where
  svc := idleHost.toServices
  registry := builtinRegistry idleHost
  graph := failingDiamond
  serverID := ""
  entryNodeID := ""
  sharesTrigger := false
  startedAt := 0

/-- The division records nothing and is executed for each of the two sums. -/
theorem pull_executes_twice :
    (Pull.ensureDataOutputs failingRun (pullBudget failingDiamond) "c"
        ⟨⟨∅, ∅, ()⟩, [], []⟩).map (fun ended => ended.1.executed) =
      some [⟨"s", false⟩, ⟨"a", true⟩, ⟨"s", false⟩, ⟨"b", true⟩, ⟨"c", true⟩] := by
  decide +kernel

end Konnekt.Scheduler
