import Konnekt.Editor.GraphMapping
import Konnekt.Run.Acyclic
import Mathlib.Data.Finset.Image

/-!
# The editor's search for control cycles

An edge closes a cycle when its target reaches its source again. What a node reaches
is found with a stack; the search finds exactly what the control edges lead to.
-/

namespace Konnekt.Editor

open Relation

/-- `controlEdges`: neither the kind nor the source handle says data. -/
def isControlEdge (e : FlowEdge) : Bool :=
  e.kind != some "data" && !isDataHandle (e.sourceHandle.getD "")

def controlEdges (edges : List FlowEdge) : List FlowEdge := edges.filter isControlEdge

/-- `adj.get(id) ?? []`. -/
def successors (edges : List FlowEdge) (id : String) : List String :=
  ((controlEdges edges).filter (·.source == id)).map FlowEdge.target

/-- The control edges whose source has not been seen. -/
private def unseen (edges : List FlowEdge) (seen : List String) : List FlowEdge :=
  (controlEdges edges).filter fun e => e.source ∉ seen

private theorem length_unseen_cons (edges : List FlowEdge) {seen : List String} {cur : String}
    (h : cur ∉ seen) :
    (successors edges cur).length + (unseen edges (cur :: seen)).length =
      (unseen edges seen).length := by
  have hunseen : unseen edges (cur :: seen) =
      (unseen edges seen).filter fun e => ! e.source == cur := by
    rw [unseen, unseen, List.filter_filter]
    refine List.filter_congr fun e _ => ?_
    simp [List.mem_cons, not_or, beq_eq_decide]
  have hsucc : (successors edges cur).length =
      ((unseen edges seen).filter (·.source == cur)).length := by
    rw [successors, List.length_map, unseen, List.filter_filter]
    refine congrArg List.length (List.filter_congr fun e _ => ?_)
    by_cases hcur : e.source = cur
    · simp [hcur, h]
    · simp [hcur]
  rw [hunseen, hsucc, ← List.length_eq_length_filter_add]

/-- The loop of `reachableFrom`; the top of the stack comes first. -/
def visit (edges : List FlowEdge) (stack seen : List String) : List String :=
  match stack with
  | [] => seen
  | cur :: stack =>
    if cur ∈ seen then visit edges stack seen
    else visit edges ((successors edges cur).reverse ++ stack) (cur :: seen)
termination_by stack.length + (unseen edges seen).length
decreasing_by
  · simp
  · have := length_unseen_cons edges ‹_›
    simp only [List.length_append, List.length_reverse, List.length_cons]
    omega

def reachableFrom (edges : List FlowEdge) (start : String) : List String :=
  visit edges (successors edges start).reverse []

/-! ## What the search finds -/

/-- A control edge leads from the one node to the other. -/
def Adjacent (edges : List FlowEdge) (a b : String) : Prop := b ∈ successors edges a

section

variable {edges : List FlowEdge}

theorem adjacent_iff {a b : String} :
    Adjacent edges a b ↔ ∃ e ∈ controlEdges edges, e.source = a ∧ e.target = b := by
  simp [Adjacent, successors, and_assoc]

/-- The search stays within what is closed under control edges. -/
private theorem visit_sound {P : String → Prop}
    (hclosed : ∀ a b, P a → Adjacent edges a b → P b) (stack seen : List String)
    (hstack : ∀ a ∈ stack, P a) (hseen : ∀ a ∈ seen, P a) :
    ∀ a ∈ visit edges stack seen, P a := by
  fun_induction visit edges stack seen with
  | case1 seen => exact hseen
  | case2 seen cur stack _ ih =>
    exact ih (fun a ha => hstack a (List.mem_cons_of_mem _ ha)) hseen
  | case3 seen cur stack _ ih =>
    have hcur := hstack cur List.mem_cons_self
    refine ih (fun a ha => ?_) (fun a ha => ?_)
    · rcases List.mem_append.1 ha with hsucc | hrest
      · exact hclosed cur a hcur (List.mem_reverse.1 hsucc)
      · exact hstack a (List.mem_cons_of_mem _ hrest)
    · rcases List.mem_cons.1 ha with rfl | ha
      · exact hcur
      · exact hseen a ha

/-- The search keeps what it has seen, takes up its stack, and ends closed under control
edges. -/
private theorem visit_complete (stack seen : List String)
    (hseen : ∀ a ∈ seen, ∀ b, Adjacent edges a b → b ∈ seen ∨ b ∈ stack) :
    (∀ a, a ∈ seen ∨ a ∈ stack → a ∈ visit edges stack seen) ∧
      ∀ a ∈ visit edges stack seen, ∀ b, Adjacent edges a b → b ∈ visit edges stack seen := by
  fun_induction visit edges stack seen with
  | case1 seen =>
    refine ⟨fun a ha => ha.resolve_right List.not_mem_nil, fun a ha b hab => ?_⟩
    exact (hseen a ha b hab).resolve_right List.not_mem_nil
  | case2 seen cur stack hcur ih =>
    have hskip : ∀ a, a ∈ seen ∨ a ∈ cur :: stack → a ∈ seen ∨ a ∈ stack := by
      rintro a (ha | ha)
      · exact .inl ha
      · rcases List.mem_cons.1 ha with rfl | ha
        · exact .inl hcur
        · exact .inr ha
    obtain ⟨hkeep, hclosed⟩ := ih fun a ha b hab => hskip b (hseen a ha b hab)
    exact ⟨fun a ha => hkeep a (hskip a ha), hclosed⟩
  | case3 seen cur stack _ ih =>
    have hmove : ∀ a, a ∈ seen ∨ a ∈ cur :: stack →
        a ∈ cur :: seen ∨ a ∈ (successors edges cur).reverse ++ stack := by
      rintro a (ha | ha)
      · exact .inl (List.mem_cons_of_mem _ ha)
      · rcases List.mem_cons.1 ha with rfl | ha
        · exact .inl List.mem_cons_self
        · exact .inr (List.mem_append_right _ ha)
    obtain ⟨hkeep, hclosed⟩ := ih fun a ha b hab => by
      rcases List.mem_cons.1 ha with rfl | ha
      · exact .inr (List.mem_append_left _ (List.mem_reverse.2 hab))
      · exact hmove b (hseen a ha b hab)
    exact ⟨fun a ha => hkeep a (hmove a ha), hclosed⟩

/-- The search finds what the control edges lead to. -/
theorem mem_reachableFrom {start a : String} :
    a ∈ reachableFrom edges start ↔ TransGen (Adjacent edges) start a := by
  constructor
  · refine visit_sound (fun b c hb hbc => hb.tail hbc) _ _ (fun b hb => ?_) (fun b hb => nomatch hb)
      a
    exact .single (List.mem_reverse.1 hb)
  · obtain ⟨hkeep, hclosed⟩ := @visit_complete edges (successors edges start).reverse []
      fun b hb => nomatch hb
    intro h
    induction h with
    | single hab => exact hkeep _ (.inr (List.mem_reverse.2 hab))
    | tail _ hbc ih => exact hclosed _ ih _ hbc

end

/-- An edge that closes a cycle. -/
def closesCycle (edges : List FlowEdge) (e : FlowEdge) : Bool :=
  e.source == e.target || (reachableFrom edges e.target).contains e.source

/-- The nodes and the edges that are part of a cycle. -/
structure Cycles where
  cycleNodes : Finset String
  cycleEdges : Finset String

def detectControlCycles (edges : List FlowEdge) : Cycles :=
  let closing := (controlEdges edges).filter (closesCycle edges)
  { cycleNodes := (closing.flatMap fun e => [e.source, e.target]).toFinset
    cycleEdges := (closing.map FlowEdge.id).toFinset }

/-- No edge is reported exactly when the control edges have no cycle. -/
theorem cycleEdges_eq_empty_iff {edges : List FlowEdge} :
    (detectControlCycles edges).cycleEdges = ∅ ↔ Acyclic.Holds (Adjacent edges) := by
  have hreport : (detectControlCycles edges).cycleEdges = ∅ ↔
      ∀ e ∈ controlEdges edges, ¬ closesCycle edges e = true := by
    rw [detectControlCycles, List.toFinset_eq_empty_iff, List.map_eq_nil_iff,
      List.filter_eq_nil_iff]
  have hcloses : ∀ e, closesCycle edges e = true ↔
      e.source = e.target ∨ TransGen (Adjacent edges) e.target e.source := by
    intro e
    rw [closesCycle, Bool.or_eq_true, beq_iff_eq, List.contains_iff_mem, mem_reachableFrom]
  rw [hreport]
  constructor
  · intro h a ha
    -- the first edge of a cycle closes it
    obtain ⟨b, hab, hba⟩ := TransGen.head'_iff.1 ha
    obtain ⟨e, he, rfl, rfl⟩ := adjacent_iff.1 hab
    refine h e he ((hcloses e).2 ?_)
    rcases reflTransGen_iff_eq_or_transGen.1 hba with heq | htrans
    · exact .inl heq
    · exact .inr htrans
  · intro h e he hclose
    have hadj : Adjacent edges e.source e.target := adjacent_iff.2 ⟨e, he, rfl, rfl⟩
    rcases (hcloses e).1 hclose with heq | hback
    · exact h e.source (.single (by rwa [← heq] at hadj))
    · exact h e.source (.head hadj hback)

end Konnekt.Editor
