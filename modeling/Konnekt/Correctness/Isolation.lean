import Konnekt.Run.SnapshotWrite
import Konnekt.Scheduler.Blocks
import Konnekt.Scheduler.Store

/-!
# Isolation of the servers in the graph store

A graph owned by one server never answers to another. A call therefore finds only
graphs of its own server, or without an owner, to replace, change or delete, and
what it writes it stamps with its own server.
-/

namespace Konnekt.Scheduler

open Go Relation SnapshotWrite

section

variable {W : Type} {svc : Services W} {w : W} {reg : BlockRegistry W}
  {unmarshal : String → Except String Graph}

/-- The graphs owned by servers other than the given one, in order. -/
def foreignGraphs (serverID : String) (graphs : List Graph) : List Graph :=
  graphs.filter fun g => g.serverID != serverID && g.serverID != ""

/-- The stores reached from one with distinct ids by calls made for a server. The ids a call
draws are arbitrary: one that is taken is refused or replaces a graph of the same server. -/
inductive StoreReachable (svc : Services W) (reg : BlockRegistry W)
    (unmarshal : String → Except String Graph) : List Graph → Prop
  | start {graphs : List Graph} (h : (graphs.map (·.id)).Nodup) :
      StoreReachable svc reg unmarshal graphs
  | call {graphs : List Graph} (w : W) {call : StoreCall} (hserver : call.serverID ≠ "")
      (h : StoreReachable svc reg unmarshal graphs) :
      StoreReachable svc reg unmarshal (call.perform svc w reg unmarshal graphs).2

/-- A graph that answers to a server is not owned by another. -/
theorem not_foreign_of_answers {serverID : String} (hserver : serverID ≠ "") {g : Graph}
    (h : graphAnswersTo svc w g serverID = true) :
    (g.serverID != serverID && g.serverID != "") = false := by
  by_cases hown : g.serverID = ""
  · simp [hown]
  · have hrun : runServerID svc w g = g.serverID := if_neg hown
    rw [graphAnswersTo, hrun] at h
    simp only [Bool.or_eq_true, beq_iff_eq] at h
    simp [h.resolve_left (by simp [hserver, hown])]

/-! ## What each call does -/

variable (svc w) in
/-- Saving either refuses and changes nothing, replaces a graph that answers to the server by
one of its own, or adds one under an id that was not taken. -/
theorem saveGraph_cases (newID serverID : String) (g : Graph) (graphs : List Graph) :
    (∃ m, saveGraph svc w newID serverID g graphs = (.error m, graphs)) ∨
    (∃ g' existing, g'.serverID = serverID ∧ graphs.find? (·.id == g'.id) = some existing ∧
      graphAnswersTo svc w existing serverID = true ∧
      saveGraph svc w newID serverID g graphs =
        (.ok g', updateFirst (·.id == g'.id) (fun _ => g') graphs)) ∨
    ∃ g', g'.serverID = serverID ∧ g'.id ∉ graphs.map (·.id) ∧
      saveGraph svc w newID serverID g graphs = (.ok g', graphs ++ [g']) := by
  unfold saveGraph
  dsimp only
  generalize (if g.id = "" then { g with id := newID, createdAt := svc.unixMilli w } else g) = base
  cases hfind : graphs.find? (·.id == base.id) with
  | some existing =>
    cases hanswers : graphAnswersTo svc w existing serverID with
    | true =>
      exact .inr (.inl ⟨{ base with updatedAt := svc.unixMilli w, serverID := serverID }, existing,
        rfl, hfind, hanswers, if_pos hanswers⟩)
    | false => exact .inl ⟨_, if_neg (by simp [hanswers])⟩
  | none =>
    have hnew : base.id ∉ graphs.map (·.id) := by
      intro hmem
      obtain ⟨g', hg', hid⟩ := List.mem_map.1 hmem
      exact List.find?_eq_none.1 hfind g' hg' (by simp [hid])
    refine .inr (.inr ⟨_, ?_, ?_, rfl⟩)
    · split <;> rfl
    · split <;> exact hnew

variable (svc w reg unmarshal) in
/-- An import is refused and changes nothing, or saves a graph under a new id. -/
theorem importGraphJSON_cases (newID serverID raw : String) (graphs : List Graph) :
    (∃ m, importGraphJSON svc w reg unmarshal newID serverID raw graphs = (.error m, graphs)) ∨
    ∃ g, importGraphJSON svc w reg unmarshal newID serverID raw graphs =
      saveGraph svc w newID serverID g graphs := by
  unfold importGraphJSON
  split
  · exact .inl ⟨_, rfl⟩
  · split
    · exact .inl ⟨_, rfl⟩
    · split
      · exact .inl ⟨_, rfl⟩
      · dsimp only
        split
        · exact .inl ⟨_, rfl⟩
        · exact .inr ⟨_, rfl⟩

/-- What a step of the store keeps: distinct ids, the graphs of other servers, and everything
if the call is refused. -/
structure StepKeeps (serverID : String) (graphs : List Graph)
    (result : Except String Unit × List Graph) : Prop where
  nodup : (result.2.map (·.id)).Nodup
  foreign : foreignGraphs serverID result.2 = foreignGraphs serverID graphs
  refused : ∀ m, result.1 = .error m → result.2 = graphs

private theorem keeps_refused {serverID : String} {graphs : List Graph}
    (h : (graphs.map (·.id)).Nodup) (r : Except String Unit) :
    StepKeeps serverID graphs (r, graphs) :=
  ⟨h, rfl, fun _ _ => rfl⟩

private theorem keeps_save {serverID : String} {graphs : List Graph} (hserver : serverID ≠ "")
    (h : (graphs.map (·.id)).Nodup) (newID : String) (g : Graph) :
    StepKeeps serverID graphs ((saveGraph svc w newID serverID g graphs).1.map fun _ => (),
      (saveGraph svc w newID serverID g graphs).2) := by
  obtain ⟨m, hsave⟩ | ⟨g', existing, howner, hfind, hanswers, hsave⟩ | ⟨g', howner, hnew, hsave⟩ :=
    saveGraph_cases svc w newID serverID g graphs
  · rw [hsave]
    exact keeps_refused h _
  · rw [hsave]
    refine ⟨?_, filter_updateFirst fun x hx => ?_, fun m hm => by cases hm⟩
    · have hkeys : (updateFirst (·.id == g'.id) (fun _ => g') graphs).map (·.id) =
          graphs.map (·.id) := map_updateFirst (f := fun _ => g') (k := fun g => g.id)
          (fun x hx => (beq_iff_eq.1 hx).symm) graphs
      dsimp only
      rwa [hkeys]
    · rw [hfind] at hx
      cases hx
      exact ⟨not_foreign_of_answers hserver hanswers, by simp [howner]⟩
  · rw [hsave]
    refine ⟨?_, ?_, fun m hm => by cases hm⟩
    · rw [List.map_append, List.map_singleton, ← List.concat_eq_append, List.nodup_concat]
      exact ⟨hnew, h⟩
    · rw [foreignGraphs, List.filter_append, List.filter_cons_of_neg (by simp [howner]),
        List.filter_nil, List.append_nil]
      rfl

/-- Every call keeps what a step is to keep. -/
theorem perform_keeps {graphs : List Graph} {call : StoreCall} (hserver : call.serverID ≠ "")
    (h : (graphs.map (·.id)).Nodup) :
    StepKeeps call.serverID graphs (call.perform svc w reg unmarshal graphs) := by
  cases call with
  | save newID serverID g => exact keeps_save hserver h newID g
  | delete serverID id =>
    refine ⟨h.sublist (List.filter_sublist.map _), ?_, fun m hm => by cases hm⟩
    simp only [StoreCall.perform, deleteGraph, foreignGraphs, List.filter_filter]
    refine List.filter_congr fun g _ => ?_
    cases hanswers : graphAnswersTo svc w g serverID with
    | true =>
      have hnot : (g.serverID != serverID && g.serverID != "") = false :=
        not_foreign_of_answers hserver hanswers
      simp only [StoreCall.serverID, hnot, Bool.false_and]
    | false => simp
  | setEnabled serverID id enabled =>
    refine ⟨?_, filter_updateFirst fun g hg => ?_, fun m hm => by cases hm⟩
    · have hkeys : (setGraphEnabled svc w serverID id enabled graphs).map (·.id) =
          graphs.map (·.id) := by
        unfold setGraphEnabled
        exact map_updateFirst (k := fun g : Graph => g.id) (by simp) graphs
      simp only [StoreCall.perform]
      rwa [hkeys]
    · have hp := List.find?_some hg
      rw [Bool.and_eq_true] at hp
      exact ⟨not_foreign_of_answers hserver hp.2, not_foreign_of_answers hserver hp.2⟩
  | importJSON newID serverID raw =>
    obtain ⟨m, himport⟩ | ⟨g, himport⟩ := importGraphJSON_cases svc w reg unmarshal newID serverID
      raw graphs
    · simp only [StoreCall.perform, himport]
      exact keeps_refused h _
    · simp only [StoreCall.perform, himport]
      exact keeps_save hserver h newID g

theorem StoreReachable.nodup {graphs : List Graph} (h : StoreReachable svc reg unmarshal graphs) :
    (graphs.map (·.id)).Nodup := by
  induction h with
  | start h => exact h
  | call w hserver _ ih => exact (perform_keeps hserver ih).nodup

/-- In every reachable store ids are distinct, and a call for one server leaves the graphs of
all others and their order alone, and the whole store if it is refused. -/
theorem store_isolated {graphs : List Graph} (hreach : StoreReachable svc reg unmarshal graphs) :
    (graphs.map (·.id)).Nodup ∧ ∀ w (call : StoreCall), call.serverID ≠ "" →
      foreignGraphs call.serverID (call.perform svc w reg unmarshal graphs).2 =
          foreignGraphs call.serverID graphs ∧
        ∀ m, (call.perform svc w reg unmarshal graphs).1 = .error m →
          (call.perform svc w reg unmarshal graphs).2 = graphs := by
  refine ⟨hreach.nodup, fun w call hserver => ?_⟩
  have hkeeps : StepKeeps call.serverID graphs (call.perform svc w reg unmarshal graphs) :=
    perform_keeps hserver hreach.nodup
  exact ⟨hkeeps.foreign, hkeeps.refused⟩

end

/-- A store with a graph of either of two servers. -/
def twoServerStore : List Graph :=
  [⟨"onA", "A", "a", true, [], [], 0, 0⟩, ⟨"onB", "B", "b", true, [], [], 0, 0⟩]

/-- Saving over the graph of another server leaves it alone. -/
theorem store_isolated_twoServers :
    foreignGraphs "a" ((StoreCall.save "new" "a" ⟨"onB", "", "", false, [], [], 0, 0⟩).perform
      idleHost.toServices () (builtinRegistry idleHost) (fun _ => .error "") twoServerStore).2 =
    foreignGraphs "a" twoServerStore :=
  ((store_isolated (.start (by decide))).2 () (.save "new" "a" _) (by decide)).1

/-! ## The graph store on disk

A call of the store changes the list of graphs and copies it under the lock, and
writes the copy after releasing it. Two calls can therefore write in the opposite
order of their changes, and the file is left with the older list. -/

section

variable {W : Type} (svc : Services W) (reg : BlockRegistry W)
  (unmarshal : String → Except String Graph)

/-- A call that was not refused changes one list of graphs into another. -/
def StoreChange (graphs graphs' : List Graph) : Prop :=
  ∃ w, ∃ call : StoreCall, call.perform svc w reg unmarshal graphs = (.ok (), graphs')

/-- The steps of concurrent calls, a change of the list and later the write of its copy. -/
def StoreStep (allowed : State (List Graph) → Snapshot (List Graph) → Prop) :
    State (List Graph) → State (List Graph) → Prop :=
  Step (StoreChange svc reg unmarshal) allowed

/-- Once every call has returned the file holds the list in memory. -/
def Persisted (s : State (List Graph)) : Prop := s.pending = [] → s.file.value = s.memory

variable {svc reg unmarshal}

/-- In every run in which no call writes after one that changed the list later has written,
the file is up to date whenever every call has returned. -/
theorem persisted_of_inOrder {graphs : List Graph} {s : State (List Graph)}
    (hrun : ReflTransGen (StoreStep svc reg unmarshal InOrder) (State.initial graphs) s) :
    Persisted s :=
  file_eq_memory hrun

end

/-! ## Two calls that overtake each other -/

/-- One graph, disabled. -/
def storedGraph : Graph := ⟨"g", "", "s1", false, [], [], 0, 0⟩

/-- It is enabled by one call and deleted by another, and the second one writes first. -/
def overtakenState : State (List Graph) where
  memory := []
  changes := 2
  file := ⟨1, [{ storedGraph with enabled := true }]⟩
  pending := []

private theorem change_enable : StoreChange idleHost.toServices (builtinRegistry idleHost)
    (fun _ => .error "") [storedGraph] [{ storedGraph with enabled := true }] :=
  ⟨(), .setEnabled "s1" "g" true, rfl⟩

private theorem change_delete : StoreChange idleHost.toServices (builtinRegistry idleHost)
    (fun _ => .error "") [{ storedGraph with enabled := true }] [] :=
  ⟨(), .delete "s1" "g", rfl⟩

/-- The deleted graph is still on disk after both calls have returned. -/
theorem not_persisted_overtaken :
    ReflTransGen (StoreStep idleHost.toServices (builtinRegistry idleHost) (fun _ => .error "")
      Unordered) (State.initial [storedGraph]) overtakenState ∧ ¬ Persisted overtakenState := by
  constructor
  · refine .head (.change change_enable) (.head (.change change_delete) ?_)
    refine .head (.write [⟨1, [{ storedGraph with enabled := true }]⟩] ⟨2, []⟩ [] rfl trivial) ?_
    exact .single (.write [] _ [] rfl trivial)
  · intro h
    exact absurd (h rfl) (by decide)

/-- The same two calls with their writes in order. -/
theorem persisted_of_inOrder_example :
    Persisted ⟨[], 2, ⟨2, []⟩, []⟩ := by
  have hrun : ReflTransGen (StoreStep idleHost.toServices (builtinRegistry idleHost)
      (fun _ => .error "") InOrder) (State.initial [storedGraph]) ⟨[], 2, ⟨2, []⟩, []⟩ := by
    refine .head (.change change_enable) (.head (.change change_delete) ?_)
    refine .head (.write [] ⟨1, [{ storedGraph with enabled := true }]⟩ [⟨2, []⟩] rfl
      Nat.zero_lt_one) ?_
    exact .single (.write [] ⟨2, []⟩ [] rfl Nat.one_lt_two)
  exact persisted_of_inOrder hrun

end Konnekt.Scheduler
