import Konnekt.Run.Labelled
import Konnekt.Scheduler.Models

/-!
# The scheduler store

The store holds the graphs of one server at a time. A switch starts a fetch without
waiting for those under way, and every response is applied only if it is for the server
that the store holds when it arrives, which after switching away and back an old one is.
-/

namespace Konnekt.Stores

open Go Labelled Scheduler

/-! ## The store -/

/-- What `useSchedulerStore` holds. -/
structure SchedulerStore where
  serverId : String := ""
  graphs : List Graph := []
  blockDefs : List BlockDef := []
  nextRuns : GoMap Int := ∅
  loading : Bool := false
  hydratedFor : Option String := none
  error : Option String := none

/-- What a hydration fetches; the bindings may answer null. -/
structure Hydration where
  graphs : Option (List Graph)
  blockDefs : Option (List BlockDef)
  nextRuns : Option (GoMap Int)

/-- The writes, with the server each is sent for. -/
inductive GraphWrite where
  | saveGraph (serverId : String) (g : Graph)
  | deleteGraph (serverId id : String)
  | setEnabled (serverId id : String) (enabled : Bool)
  deriving DecidableEq

def GraphWrite.serverId : GraphWrite → String
  | .saveGraph serverId _ | .deleteGraph serverId _ | .setEnabled serverId _ _ => serverId

namespace SchedulerStore

/-- The synchronous part of `hydrate`, unless it returns at once. -/
def startHydrate (serverId : String) (s : SchedulerStore) : Option SchedulerStore :=
  if s.hydratedFor = some serverId then none
  else if s.loading ∧ s.serverId = serverId then none
  else
    let next := { s with serverId := serverId, loading := true, error := none }
    -- a switch leaves nothing of the previous server on screen
    some (if s.serverId = serverId then next
      else { next with graphs := [], nextRuns := ∅, hydratedFor := none })

/-- `hydrate` after its fetch for a server has come back. -/
def finishHydrate (serverId : String) (r : Except String Hydration) (s : SchedulerStore) :
    SchedulerStore :=
  if s.serverId ≠ serverId then s
  else
    match r with
    | .ok r => { s with
        graphs := r.graphs.getD []
        blockDefs := r.blockDefs.getD []
        nextRuns := r.nextRuns.getD ∅
        loading := false
        hydratedFor := some serverId }
    | .error e => { s with loading := false, error := some e }

/-- A saved graph in its place in the list, or at the end of it. -/
def putGraph (saved : Graph) (graphs : List Graph) : List Graph :=
  match graphs.findIdx? fun x => x.id = saved.id with
  | some i => graphs.set i saved
  | none => graphs ++ [saved]

/-- `saveGraph` after its await. -/
def finishSave (serverId : String) (r : Except String Graph) (s : SchedulerStore) :
    SchedulerStore :=
  match r with
  | .ok saved => if s.serverId ≠ serverId then s else { s with graphs := putGraph saved s.graphs }
  | .error e => { s with error := some e }

/-- `deleteGraph` after its await. -/
def finishDelete (serverId id : String) (r : Except String Unit) (s : SchedulerStore) :
    SchedulerStore :=
  match r with
  | .ok _ =>
    if s.serverId ≠ serverId then s
    else { s with graphs := s.graphs.filter fun g => g.id ≠ id }
  | .error e => { s with error := some e }

/-- The two fields of a graph that the backend changes when it enables or disables it. -/
def mirror (enabled : Bool) (now : Int) (g : Graph) : Graph :=
  { g with enabled := enabled, updatedAt := now }

/-- `setEnabled` after its await, at a time. -/
def finishEnabled (serverId id : String) (enabled : Bool) (now : Int) (r : Except String Unit)
    (s : SchedulerStore) : SchedulerStore :=
  match r with
  | .ok _ =>
    if s.serverId ≠ serverId then s
    else { s with graphs := s.graphs.map fun g => if g.id = id then mirror enabled now g else g }
  | .error e => { s with error := some e }

end SchedulerStore

/-! ## The store between its callers and the backend -/

/-- The store, and the requests that have not been answered: the servers of the fetches, and the
writes. -/
structure SchedulerClient where
  store : SchedulerStore := {}
  fetches : List String := []
  writes : List GraphWrite := []

/-- A call of one of the store's functions, or an answer of the backend. -/
inductive StoreEvent where
  | hydrate (serverId : String)
  | hydrated (serverId : String) (r : Except String Hydration)
  | saveGraph (g : Graph)
  | saved (serverId : String) (g : Graph) (r : Except String Graph)
  | deleteGraph (id : String)
  | deleted (serverId id : String) (r : Except String Unit)
  | setEnabled (id : String) (enabled : Bool)
  | enabledSet (serverId id : String) (enabled : Bool) (now : Int) (r : Except String Unit)
  | setNextRuns (runs : Option (GoMap Int))
  | clearError

/-- What is sent to the backend. -/
inductive Request where
  | fetch (serverId : String)
  | write (w : GraphWrite)

namespace SchedulerClient

/-- A write is called: the server is the one of the store at that moment. -/
def send (c : SchedulerClient) (w : String → GraphWrite) : Option Request × SchedulerClient :=
  let w := w c.store.serverId
  (some (.write w), { c with
    store := { c.store with error := none }
    writes := w :: c.writes })

/-- A write is answered. -/
def answer (c : SchedulerClient) (w : GraphWrite) (store : SchedulerStore) :
    Option Request × SchedulerClient :=
  (none, { c with store := store, writes := c.writes.erase w })

def act : StoreEvent → SchedulerClient → Option Request × SchedulerClient
  | .hydrate serverId, c =>
    match c.store.startHydrate serverId with
    | none => (none, c)
    | some store => (some (.fetch serverId), { c with
        store := store
        fetches := serverId :: c.fetches })
  | .hydrated serverId r, c => (none, { c with
      store := c.store.finishHydrate serverId r
      fetches := c.fetches.erase serverId })
  | .saveGraph g, c => c.send fun serverId => .saveGraph serverId g
  | .saved serverId g r, c => c.answer (.saveGraph serverId g) (c.store.finishSave serverId r)
  | .deleteGraph id, c => c.send fun serverId => .deleteGraph serverId id
  | .deleted serverId id r, c =>
    c.answer (.deleteGraph serverId id) (c.store.finishDelete serverId id r)
  | .setEnabled id enabled, c => c.send fun serverId => .setEnabled serverId id enabled
  | .enabledSet serverId id enabled now r, c =>
    c.answer (.setEnabled serverId id enabled) (c.store.finishEnabled serverId id enabled now r)
  | .setNextRuns runs, c => (none, { c with
      store := { c.store with nextRuns := runs.getD ∅ } })
  | .clearError, c => (none, { c with store := { c.store with error := none } })

/-- The answers come in any order, each to a request that is under way. -/
def enabled : StoreEvent → SchedulerClient → Prop
  | .hydrated serverId _, c => serverId ∈ c.fetches
  | .saved serverId g _, c => .saveGraph serverId g ∈ c.writes
  | .deleted serverId id _, c => .deleteGraph serverId id ∈ c.writes
  | .enabledSet serverId id enabled _ _, c => .setEnabled serverId id enabled ∈ c.writes
  | _, _ => True

end SchedulerClient

/-- The store under calls and answers in any order. -/
def schedulerStore : System SchedulerClient StoreEvent (Option Request) where
  act := SchedulerClient.act
  enabled := SchedulerClient.enabled

/-- Every call may be made at any time. -/
def anyEvent : History SchedulerClient StoreEvent → SchedulerClient → StoreEvent → Prop :=
  fun _ _ _ => True

/-- The backend has returned this graph for a server: fetched, saved, or as one of those with the
two fields that a write it has confirmed for the server has changed. -/
inductive FromBackend (h : History SchedulerClient StoreEvent) (serverId : String) : Graph → Prop
  | fetched {c : SchedulerClient} {r : Hydration} {graphs : List Graph} {g : Graph}
      (he : (c, .hydrated serverId (.ok r)) ∈ h) (hgraphs : r.graphs = some graphs)
      (hg : g ∈ graphs) : FromBackend h serverId g
  | saved {c : SchedulerClient} {sent g : Graph} (he : (c, .saved serverId sent (.ok g)) ∈ h) :
      FromBackend h serverId g
  | mirrored {c : SchedulerClient} {g : Graph} {enabled : Bool} {now : Int}
      (hg : FromBackend h serverId g)
      (he : (c, .enabledSet serverId g.id enabled now (.ok ())) ∈ h) :
      FromBackend h serverId (SchedulerStore.mirror enabled now g)

theorem FromBackend.mono {h h' : History SchedulerClient StoreEvent} {serverId : String}
    {g : Graph} (hg : FromBackend h serverId g) (hle : h ⊆ h') : FromBackend h' serverId g := by
  induction hg with
  | fetched he hgraphs hg => exact .fetched (hle he) hgraphs hg
  | saved he => exact .saved (hle he)
  | mirrored _ he ih => exact .mirrored ih (hle he)

/-- What holds of the store in every state a run reaches. -/
structure StoreInvariant (h : History SchedulerClient StoreEvent) (c : SchedulerClient) : Prop where
  /-- The latch names the server the store holds, or none. -/
  hydrated : ∀ serverId, c.store.hydratedFor = some serverId → serverId = c.store.serverId
  /-- No graph is another server's. -/
  graphs : ∀ g ∈ c.store.graphs, FromBackend h c.store.serverId g
  /-- The fetch that is to end the loading is under way. -/
  loading : c.store.loading = true → c.store.serverId ∈ c.fetches

namespace StoreInvariant

variable {h : History SchedulerClient StoreEvent} {c : SchedulerClient}

/-- Events that leave the server, its graphs and its fetches alone. -/
theorem keep {e : SchedulerClient × StoreEvent} {c' : SchedulerClient} (hinv : StoreInvariant h c)
    (hserver : c'.store.serverId = c.store.serverId)
    (hlatch : c'.store.hydratedFor = c.store.hydratedFor)
    (hloading : c'.store.loading = c.store.loading) (hfetches : c'.fetches = c.fetches)
    (hgraphs : ∀ g ∈ c'.store.graphs, FromBackend (e :: h) c.store.serverId g) :
    StoreInvariant (e :: h) c' where
  hydrated serverId hs := by
    rw [hserver]
    exact hinv.hydrated serverId (hlatch ▸ hs)
  graphs g hg := by
    rw [hserver]
    exact hgraphs g hg
  loading hl := by
    rw [hserver, hfetches]
    exact hinv.loading (hloading ▸ hl)

theorem older {e : SchedulerClient × StoreEvent} (hinv : StoreInvariant h c) :
    ∀ g ∈ c.store.graphs, FromBackend (e :: h) c.store.serverId g := fun g hg =>
  (hinv.graphs g hg).mono fun _ he => List.mem_cons_of_mem _ he

/-- A hydration that starts clears what is another server's, and leaves a fetch under way. -/
theorem hydrate (hinv : StoreInvariant h c) (serverId : String) :
    StoreInvariant ((c, .hydrate serverId) :: h) (SchedulerClient.act (.hydrate serverId) c).2 := by
  unfold SchedulerClient.act SchedulerStore.startHydrate
  by_cases hlatch : c.store.hydratedFor = some serverId
  · simp only [hlatch, if_true]
    exact hinv.keep rfl rfl rfl rfl hinv.older
  by_cases hbusy : c.store.loading ∧ c.store.serverId = serverId
  · simp only [hlatch, hbusy, if_true, if_false]
    exact hinv.keep rfl rfl rfl rfl hinv.older
  simp only [hlatch, hbusy, if_false]
  by_cases hsame : c.store.serverId = serverId
  · simp only [hsame, if_true]
    refine ⟨fun other hs => ?_, fun g hg => ?_, fun _ => List.mem_cons_self⟩
    · rw [← hsame]
      exact hinv.hydrated other hs
    · have hold := hinv.older (e := (c, .hydrate serverId)) g hg
      rwa [hsame] at hold
  · simp only [hsame, if_false]
    exact ⟨fun other hs => (nomatch hs), fun g hg => absurd hg List.not_mem_nil,
      fun _ => List.mem_cons_self⟩

/-- An answer to a fetch ends the loading if it is for the server of the store. -/
theorem finishHydrate (hinv : StoreInvariant h c) (serverId : String) (r : Except String Hydration) :
    StoreInvariant ((c, .hydrated serverId r) :: h)
      (SchedulerClient.act (.hydrated serverId r) c).2 := by
  unfold SchedulerClient.act SchedulerStore.finishHydrate
  by_cases hserver : c.store.serverId = serverId
  · subst hserver
    simp only [ne_eq, not_true_eq_false, if_false]
    cases r with
    | ok r =>
      refine ⟨fun other hs => ?_, fun g hg => ?_, fun hl => nomatch hl⟩
      · exact (Option.some.inj hs).symm
      · dsimp only at hg ⊢
        cases hgraphs : r.graphs with
        | none =>
          rw [hgraphs] at hg
          exact absurd hg List.not_mem_nil
        | some graphs =>
          rw [hgraphs] at hg
          exact .fetched List.mem_cons_self hgraphs hg
    | error e => exact ⟨hinv.hydrated, hinv.older, fun hl => nomatch hl⟩
  · simp only [hserver, ne_eq, not_false_eq_true, if_true]
    refine ⟨hinv.hydrated, hinv.older, fun hl => ?_⟩
    exact (List.mem_erase_of_ne hserver).2 (hinv.loading hl)

theorem mem_putGraph {saved g : Graph} {graphs : List Graph}
    (hg : g ∈ SchedulerStore.putGraph saved graphs) : g = saved ∨ g ∈ graphs := by
  unfold SchedulerStore.putGraph at hg
  split at hg
  · exact (List.mem_or_eq_of_mem_set hg).symm
  · exact (List.mem_append.1 hg).symm.imp_left List.mem_singleton.1

theorem finishSave (hinv : StoreInvariant h c) (serverId : String) (sent : Graph)
    (r : Except String Graph) : StoreInvariant ((c, .saved serverId sent r) :: h)
      (SchedulerClient.act (.saved serverId sent r) c).2 := by
  unfold SchedulerClient.act SchedulerClient.answer SchedulerStore.finishSave
  cases r with
  | error e => exact hinv.keep rfl rfl rfl rfl hinv.older
  | ok saved =>
    by_cases hserver : c.store.serverId = serverId
    · subst hserver
      simp only [ne_eq, not_true_eq_false, if_false]
      refine hinv.keep rfl rfl rfl rfl fun g hg => ?_
      rcases mem_putGraph hg with rfl | hg
      · exact .saved List.mem_cons_self
      · exact hinv.older g hg
    · simp only [hserver, ne_eq, not_false_eq_true, if_true]
      exact hinv.keep rfl rfl rfl rfl hinv.older

theorem finishDelete (hinv : StoreInvariant h c) (serverId id : String) (r : Except String Unit) :
    StoreInvariant ((c, .deleted serverId id r) :: h)
      (SchedulerClient.act (.deleted serverId id r) c).2 := by
  unfold SchedulerClient.act SchedulerClient.answer SchedulerStore.finishDelete
  cases r with
  | error e => exact hinv.keep rfl rfl rfl rfl hinv.older
  | ok _ =>
    by_cases hserver : c.store.serverId = serverId
    · subst hserver
      simp only [ne_eq, not_true_eq_false, if_false]
      exact hinv.keep rfl rfl rfl rfl fun g hg => hinv.older g (List.mem_filter.1 hg).1
    · simp only [hserver, ne_eq, not_false_eq_true, if_true]
      exact hinv.keep rfl rfl rfl rfl hinv.older

/-- What a confirmed write mirrors is a graph of the server it was sent for. -/
theorem finishEnabled (hinv : StoreInvariant h c) (serverId id : String) (enabled : Bool)
    (now : Int) (r : Except String Unit) :
    StoreInvariant ((c, .enabledSet serverId id enabled now r) :: h)
      (SchedulerClient.act (.enabledSet serverId id enabled now r) c).2 := by
  unfold SchedulerClient.act SchedulerClient.answer SchedulerStore.finishEnabled
  cases r with
  | error e => exact hinv.keep rfl rfl rfl rfl hinv.older
  | ok _ =>
    by_cases hserver : c.store.serverId = serverId
    · subst hserver
      simp only [ne_eq, not_true_eq_false, if_false]
      refine hinv.keep rfl rfl rfl rfl fun g hg => ?_
      obtain ⟨g', hg', rfl⟩ := List.mem_map.1 hg
      have hold := hinv.older
        (e := (c, .enabledSet c.store.serverId id enabled now (.ok ()))) g' hg'
      split
      · next hid =>
        subst hid
        exact .mirrored hold List.mem_cons_self
      · exact hold
    · simp only [hserver, ne_eq, not_false_eq_true, if_true]
      exact hinv.keep rfl rfl rfl rfl hinv.older

/-- Every event keeps the invariant. -/
theorem act (hinv : StoreInvariant h c) (a : StoreEvent) :
    StoreInvariant ((c, a) :: h) (schedulerStore.act a c).2 := by
  cases a with
  | hydrate serverId => exact hinv.hydrate serverId
  | hydrated serverId r => exact hinv.finishHydrate serverId r
  | saved serverId g r => exact hinv.finishSave serverId g r
  | deleted serverId id r => exact hinv.finishDelete serverId id r
  | enabledSet serverId id enabled now r => exact hinv.finishEnabled serverId id enabled now r
  | saveGraph g => exact hinv.keep rfl rfl rfl rfl hinv.older
  | deleteGraph id => exact hinv.keep rfl rfl rfl rfl hinv.older
  | setEnabled id enabled => exact hinv.keep rfl rfl rfl rfl hinv.older
  | setNextRuns runs => exact hinv.keep rfl rfl rfl rfl hinv.older
  | clearError => exact hinv.keep rfl rfl rfl rfl hinv.older

theorem run (hrun : Run schedulerStore anyEvent {} h c) : StoreInvariant h c :=
  hrun.invariant (P := fun h c => StoreInvariant h c)
    ⟨fun _ hs => (nomatch hs), fun _ hg => absurd hg List.not_mem_nil, fun hl => nomatch hl⟩
    fun _ _ a _ hinv _ _ => hinv.act a

end StoreInvariant

/-- A write is sent for the server of the store it is called on. -/
theorem serverId_of_sent {a : StoreEvent} {c : SchedulerClient} {w : GraphWrite}
    (h : (schedulerStore.act a c).1 = some (.write w)) : w.serverId = c.store.serverId := by
  cases a with
  | hydrate serverId =>
    simp only [schedulerStore, SchedulerClient.act] at h
    split at h
    · cases h
    · cases h
  | saveGraph g =>
    cases h
    rfl
  | deleteGraph id =>
    cases h
    rfl
  | setEnabled id enabled =>
    cases h
    rfl
  | hydrated | saved | deleted | enabledSet | setNextRuns | clearError => cases h

/-- In every run the latch names the server of the store or none, the graphs are those the
backend has returned for it, a write is sent for the server whose graphs were shown, and the
store stops loading. -/
theorem scheduler_store_of_one_server {h : History SchedulerClient StoreEvent}
    {c : SchedulerClient} (hrun : Run schedulerStore anyEvent {} h c) :
    (c.store.hydratedFor = none ∨ c.store.hydratedFor = some c.store.serverId) ∧
    (∀ g ∈ c.store.graphs, FromBackend h c.store.serverId g) ∧
    (∀ newer older shown a w, h = newer ++ (shown, a) :: older →
      (schedulerStore.act a shown).1 = some (.write w) →
        w.serverId = shown.store.serverId ∧
        ∀ g ∈ shown.store.graphs, FromBackend older w.serverId g) ∧
    (c.fetches = [] → c.writes = [] → c.store.loading = false) := by
  have hinv := StoreInvariant.run hrun
  refine ⟨?_, hinv.graphs, ?_, ?_⟩
  · cases hlatch : c.store.hydratedFor with
    | none => exact .inl rfl
    | some serverId =>
      rw [hinv.hydrated serverId hlatch]
      exact .inr rfl
  · rintro newer older shown a w rfl hsent
    have hserver := serverId_of_sent hsent
    refine ⟨hserver, fun g hg => ?_⟩
    rw [hserver]
    exact (StoreInvariant.run hrun.before.1).graphs g hg
  · intro hfetches _
    rw [← Bool.not_eq_true]
    intro hloading
    have hmem := hinv.loading hloading
    rw [hfetches] at hmem
    exact absurd hmem List.not_mem_nil

/-- Switched away and back, with the answer to one of the two fetches for the first server. -/
def switchedAndBack : List StoreEvent := [
  .hydrated "b" (.ok ⟨none, none, none⟩),
  .hydrated "a" (.ok ⟨some [⟨"g1", "Nightly", "a", true, [], [], 0, 0⟩], none, none⟩),
  .hydrate "a", .hydrate "b", .hydrate "a"]

theorem switchedAndBack_run : Run schedulerStore anyEvent {}
    (schedulerStore.play {} switchedAndBack).1 (schedulerStore.play {} switchedAndBack).2 := by
  apply System.Playable.run
  simp [switchedAndBack, System.Playable, System.play, schedulerStore, SchedulerClient.enabled,
    SchedulerClient.act, SchedulerStore.startHydrate, anyEvent]

theorem scheduler_store_switched : FromBackend (schedulerStore.play {} switchedAndBack).1 "a"
    ⟨"g1", "Nightly", "a", true, [], [], 0, 0⟩ :=
  (scheduler_store_of_one_server switchedAndBack_run).2.1 _ (by
    simp [switchedAndBack, System.play, schedulerStore, SchedulerClient.act,
      SchedulerStore.startHydrate, SchedulerStore.finishHydrate])

end Konnekt.Stores
