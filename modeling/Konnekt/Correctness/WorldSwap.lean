import Konnekt.Backup.WorldSwap

/-!
# All or nothing

Whatever rename of a world restore fails, the folders already swapped are put
back, so that every target holds what it held before; otherwise every target
holds its staged folder and nothing stays set aside.
-/

namespace Konnekt.Backup

open Go Folders

/-- The paths of a restore's swaps: the targets are distinct, and no target is a path where a
staged folder stands or another target is set aside. -/
structure SwapPaths (stamp : String) (swaps : List WorldSwap) : Prop where
  targets : (swaps.map (·.target)).Nodup
  staged_target : ∀ sw ∈ swaps, ∀ sw' ∈ swaps, sw.staged ≠ sw'.target
  staged_aside : ∀ sw ∈ swaps, ∀ sw' ∈ swaps, sw.staged ≠ sw'.aside stamp
  aside_target : ∀ sw ∈ swaps, ∀ sw' ∈ swaps, sw.aside stamp ≠ sw'.target

theorem WorldSwap.target_ne_aside (stamp : String) (sw : WorldSwap) : sw.target ≠ sw.aside stamp := by
  intro h
  have hlen := congrArg String.length h
  simp only [WorldSwap.aside, String.length_append] at hlen
  have hmark : ".bak-".length = 5 := rfl
  omega

theorem WorldSwap.aside_inj {stamp : String} {sw sw' : WorldSwap}
    (h : sw.aside stamp = sw'.aside stamp) : sw.target = sw'.target := by
  have hlist := congrArg String.toList h
  simp only [WorldSwap.aside, String.toList_append, List.append_assoc] at hlist
  exact String.toList_inj.1 (List.append_cancel_right hlist)

section

variable {C : Type} {fault : Nat → Option String} {stamp : String}

/-! ## One swap -/

/-- What a swap that succeeds has done. -/
structure Placed (stamp : String) (sw : WorldSwap) (fs fs' : Folders C) (d : Completed) : Prop where
  target : d.target = sw.target
  aside : d.aside = sw.aside stamp
  staged : fs sw.staged ≠ none
  free : d.hadAside = true → fs sw.target ≠ none ∧ fs (sw.aside stamp) = none
  absent : d.hadAside = false → fs sw.target = none
  effect : fs' = move sw.staged sw.target
    (if d.hadAside then move sw.target (sw.aside stamp) fs else fs)

variable {sw : WorldSwap} {i : Nat} {done : List Completed} {fs fs' : Folders C}

variable (fault i done fs) in
/-- A swap is in place, or everything is put back as it was before the swap and its
predecessors. -/
theorem swapOne_cases (hst : sw.staged ≠ sw.target) (hsa : sw.staged ≠ sw.aside stamp) :
    (∃ d fs', swapOne fault stamp i sw done fs = (.ok d, fs') ∧ Placed stamp sw fs fs' d) ∨
      ∃ e, swapOne fault stamp i sw done fs = (.error e, rollback done fs) := by
  have hta := sw.target_ne_aside stamp
  unfold swapOne
  cases hfirst : rename (fault (2 * i)) sw.target (sw.aside stamp) fs with
  | ok fs₁ =>
    obtain ⟨htarget, haside, rfl⟩ := rename_ok hfirst
    dsimp only
    unfold placeStaged
    cases hsecond : rename (fault (2 * i + 1)) sw.staged sw.target
        (move sw.target (sw.aside stamp) fs) with
    | ok fs₂ =>
      obtain ⟨hstaged, -, rfl⟩ := rename_ok hsecond
      rw [move_of_ne hst hsa] at hstaged
      exact .inl ⟨_, _, rfl, ⟨rfl, rfl, hstaged, fun _ => ⟨htarget, haside⟩, fun h => (by cases h),
        rfl⟩⟩
    | error e =>
      dsimp only
      rw [if_pos rfl, tryRename_move hta htarget haside]
      exact .inr ⟨_, rfl⟩
  | error e =>
    cases e with
    | notExist =>
      have htarget := rename_notExist hfirst
      dsimp only
      unfold placeStaged
      cases hsecond : rename (fault (2 * i + 1)) sw.staged sw.target fs with
      | ok fs₂ =>
        obtain ⟨hstaged, -, rfl⟩ := rename_ok hsecond
        exact .inl ⟨_, _, rfl, ⟨rfl, rfl, hstaged, fun h => (by cases h), fun _ => htarget, rfl⟩⟩
      | error e => exact .inr ⟨_, rfl⟩
    | exist => exact .inr ⟨_, rfl⟩
    | other message => exact .inr ⟨_, rfl⟩

/-- What a swap changes: the staged folder is at the target, and the one that was there aside. -/
theorem Placed.at_target {d : Completed} (h : Placed stamp sw fs fs' d)
    (hst : sw.staged ≠ sw.target) (hsa : sw.staged ≠ sw.aside stamp) :
    fs' sw.target = fs sw.staged := by
  rw [h.effect, move_dst]
  cases d.hadAside with
  | true => exact move_of_ne hst hsa fs
  | false => rfl

theorem Placed.at_staged {d : Completed} (h : Placed stamp sw fs fs' d)
    (hst : sw.staged ≠ sw.target) : fs' sw.staged = none := by
  rw [h.effect, move_src hst]

/-- Every other path is left alone, but for the place where a folder is set aside. -/
theorem Placed.frame {d : Completed} (h : Placed stamp sw fs fs' d) {p : String}
    (hstaged : p ≠ sw.staged) (htarget : p ≠ sw.target)
    (haside : d.hadAside = true → p ≠ sw.aside stamp) : fs' p = fs p := by
  rw [h.effect, move_of_ne hstaged htarget]
  cases hhad : d.hadAside with
  | true => exact move_of_ne htarget (haside hhad) fs
  | false => rfl

/-- Undoing a swap loses the staged folder and nothing else. -/
theorem Placed.undo {d : Completed} (h : Placed stamp sw fs fs' d) {paths : Set String}
    (hstaged : sw.staged ∈ paths) (htarget : sw.target ∉ paths) (haside : sw.aside stamp ∉ paths) :
    AgreeOff paths (d.undo fs') fs := by
  have hta := sw.target_ne_aside stamp
  unfold Completed.undo
  rw [h.target, h.aside]
  have hremoved : AgreeOff paths (removeAll sw.target fs')
      (if d.hadAside then move sw.target (sw.aside stamp) fs else fs) := by
    intro p hp
    have hpstaged : p ≠ sw.staged := fun heq => hp (heq ▸ hstaged)
    by_cases hptarget : p = sw.target
    · rw [hptarget, removeAll_self]
      cases hhad : d.hadAside with
      | true => exact (move_src hta fs).symm
      | false => exact (h.absent hhad).symm
    · rw [removeAll_of_ne hptarget, h.effect, move_of_ne hpstaged hptarget]
  cases hhad : d.hadAside with
  | false =>
    rw [hhad] at hremoved
    exact hremoved
  | true =>
    rw [hhad] at hremoved
    obtain ⟨hsource, hfree⟩ := h.free hhad
    have hback := hremoved.tryRename haside htarget
    rwa [if_pos rfl, tryRename_move hta hsource hfree] at hback

/-! ## All swaps -/

variable {swaps : List WorldSwap} {paths : Set String} {start : Folders C}

/-- The completed swaps can be undone, whatever became of the staged folders. -/
def Undoable (paths : Set String) (start : Folders C) (done : List Completed)
    (fs : Folders C) : Prop :=
  ∀ g, AgreeOff paths g fs → AgreeOff paths (rollback done g) start

/-- One more completed swap can be undone with the others. -/
theorem Undoable.placed {d : Completed} (h : Undoable paths start done fs)
    (hplaced : Placed stamp sw fs fs' d) (hstaged : sw.staged ∈ paths) (htarget : sw.target ∉ paths)
    (haside : sw.aside stamp ∉ paths) : Undoable paths start (done ++ [d]) fs' := by
  intro g hg
  have hundo : AgreeOff paths (d.undo g) (d.undo fs') := by
    unfold Completed.undo
    rw [hplaced.target, hplaced.aside]
    cases d.hadAside with
    | true => exact (hg.removeAll _).tryRename haside htarget
    | false => exact hg.removeAll _
  rw [rollback, List.foldr_append]
  exact h _ (hundo.trans (hplaced.undo hstaged htarget haside))

/-- After a failure every path but those of the staged folders is as it was. -/
theorem agreeOff_of_error {e : RestoreFailure} (hstaged : ∀ sw ∈ swaps, sw.staged ∈ paths)
    (htarget : ∀ sw ∈ swaps, sw.target ∉ paths) (haside : ∀ sw ∈ swaps, sw.aside stamp ∉ paths)
    (hundo : Undoable paths start done fs)
    (h : swapLoop fault stamp i swaps done fs = (.error e, fs')) : AgreeOff paths fs' start := by
  induction swaps generalizing i done fs with
  | nil => cases h
  | cons sw swaps ih =>
    have hst : sw.staged ≠ sw.target := fun heq =>
      htarget sw List.mem_cons_self (heq ▸ hstaged sw List.mem_cons_self)
    have hsa : sw.staged ≠ sw.aside stamp := fun heq =>
      haside sw List.mem_cons_self (heq ▸ hstaged sw List.mem_cons_self)
    rw [swapLoop] at h
    obtain ⟨d, fs₁, hone, hplaced⟩ | ⟨e', hone⟩ := swapOne_cases fault i done fs hst hsa
    · rw [hone] at h
      exact ih (fun sw' h' => hstaged sw' (List.mem_cons_of_mem _ h'))
        (fun sw' h' => htarget sw' (List.mem_cons_of_mem _ h'))
        (fun sw' h' => haside sw' (List.mem_cons_of_mem _ h'))
        (hundo.placed hplaced (hstaged sw List.mem_cons_self) (htarget sw List.mem_cons_self)
          (haside sw List.mem_cons_self)) h
    · rw [hone] at h
      cases h
      exact hundo fs (.refl paths fs)

/-- What the loop has done when all swaps succeed. -/
structure AllPlaced (stamp : String) (swaps : List WorldSwap) (new : List Completed)
    (fs fs' : Folders C) : Prop where
  targets : new.map (·.target) = swaps.map (·.target)
  asides : ∀ d ∈ new, ∃ sw ∈ swaps, d.aside = sw.aside stamp
  free : ∀ d ∈ new, d.hadAside = true → fs d.aside = none
  placed : ∀ sw ∈ swaps, fs sw.staged ≠ none ∧ fs' sw.target = fs sw.staged
  frame : ∀ p, (∀ sw ∈ swaps, p ≠ sw.staged ∧ p ≠ sw.target) →
    (∀ d ∈ new, d.hadAside = true → p ≠ d.aside) → fs' p = fs p

/-- The first swap and those after it. -/
theorem AllPlaced.cons {d : Completed} {new : List Completed} {fs₁ : Folders C}
    (hpaths : SwapPaths stamp (sw :: swaps)) (hplaced : Placed stamp sw fs fs₁ d)
    (h : AllPlaced stamp swaps new fs₁ fs') : AllPlaced stamp (sw :: swaps) (d :: new) fs fs' := by
  have hself : sw ∈ sw :: swaps := List.mem_cons_self
  have hrest : ∀ {sw'}, sw' ∈ swaps → sw' ∈ sw :: swaps := List.mem_cons_of_mem sw
  have hst := hpaths.staged_target sw hself sw hself
  have hsa := hpaths.staged_aside sw hself sw hself
  have hdistinct : ∀ sw' ∈ swaps, sw'.target ≠ sw.target := by
    intro sw' hsw' heq
    have hnodup := hpaths.targets
    rw [List.map_cons, List.nodup_cons] at hnodup
    exact hnodup.1 (heq ▸ List.mem_map_of_mem hsw')
  refine ⟨?_, ?_, ?_, ?_, ?_⟩
  · rw [List.map_cons, List.map_cons, h.targets, hplaced.target]
  · intro d' hd'
    rcases List.mem_cons.1 hd' with rfl | hd'
    · exact ⟨sw, hself, hplaced.aside⟩
    · obtain ⟨sw', hsw', haside⟩ := h.asides d' hd'
      exact ⟨sw', hrest hsw', haside⟩
  · intro d' hd' hhad
    rcases List.mem_cons.1 hd' with rfl | hd'
    · rw [hplaced.aside]
      exact (hplaced.free hhad).2
    · -- the place was free before the first swap too, which does not touch it
      obtain ⟨sw', hsw', haside⟩ := h.asides d' hd'
      have hfree := h.free d' hd' hhad
      rw [haside] at hfree ⊢
      rwa [hplaced.frame (hpaths.staged_aside sw hself sw' (hrest hsw')).symm
        (hpaths.aside_target sw' (hrest hsw') sw hself)
        (fun _ heq => hdistinct sw' hsw' (WorldSwap.aside_inj heq))] at hfree
  · intro sw' hsw'
    rcases List.mem_cons.1 hsw' with rfl | hsw'
    · refine ⟨hplaced.staged, ?_⟩
      rw [h.frame, hplaced.at_target hst hsa]
      · intro sw'' hsw''
        exact ⟨(hpaths.staged_target sw'' (hrest hsw'') _ hself).symm, (hdistinct sw'' hsw'').symm⟩
      · intro d' hd' _
        obtain ⟨sw'', hsw'', haside⟩ := h.asides d' hd'
        rw [haside]
        exact (hpaths.aside_target sw'' (hrest hsw'') _ hself).symm
    · obtain ⟨hstaged, htarget⟩ := h.placed sw' hsw'
      have hne : sw'.staged ≠ sw.staged := by
        intro heq
        rw [heq, hplaced.at_staged hst] at hstaged
        exact hstaged rfl
      have hsame : fs₁ sw'.staged = fs sw'.staged :=
        hplaced.frame hne (hpaths.staged_target sw' (hrest hsw') sw hself)
          fun _ => hpaths.staged_aside sw' (hrest hsw') sw hself
      rw [hsame] at hstaged htarget
      exact ⟨hstaged, htarget⟩
  · intro p hp hasides
    rw [h.frame p (fun sw' hsw' => hp sw' (hrest hsw'))
        fun d' hd' => hasides d' (List.mem_cons_of_mem d hd'),
      hplaced.frame (hp sw hself).1 (hp sw hself).2]
    intro hhad
    rw [← hplaced.aside]
    exact hasides d List.mem_cons_self hhad

theorem SwapPaths.tail (hpaths : SwapPaths stamp (sw :: swaps)) : SwapPaths stamp swaps where
  targets := (List.nodup_cons.1 hpaths.targets).2
  staged_target := fun a ha b hb =>
    hpaths.staged_target a (List.mem_cons_of_mem sw ha) b (List.mem_cons_of_mem sw hb)
  staged_aside := fun a ha b hb =>
    hpaths.staged_aside a (List.mem_cons_of_mem sw ha) b (List.mem_cons_of_mem sw hb)
  aside_target := fun a ha b hb =>
    hpaths.aside_target a (List.mem_cons_of_mem sw ha) b (List.mem_cons_of_mem sw hb)

/-- When the loop succeeds, every swap is in place. -/
theorem allPlaced_of_ok {all : List Completed} (hpaths : SwapPaths stamp swaps)
    (h : swapLoop fault stamp i swaps done fs = (.ok all, fs')) :
    ∃ new, all = done ++ new ∧ AllPlaced stamp swaps new fs fs' := by
  induction swaps generalizing i done fs with
  | nil =>
    cases h
    refine ⟨[], (List.append_nil _).symm, rfl, ?_, ?_, ?_, fun _ _ _ => rfl⟩
    all_goals exact fun x hx => absurd hx List.not_mem_nil
  | cons sw swaps ih =>
    have hself : sw ∈ sw :: swaps := List.mem_cons_self
    rw [swapLoop] at h
    obtain ⟨d, fs₁, hone, hplaced⟩ | ⟨e, hone⟩ := swapOne_cases fault i done fs
      (hpaths.staged_target sw hself sw hself) (hpaths.staged_aside sw hself sw hself)
    · rw [hone] at h
      obtain ⟨new, rfl, hnew⟩ := ih hpaths.tail h
      exact ⟨d :: new, by rw [List.append_assoc]; rfl, hnew.cons hpaths hplaced⟩
    · rw [hone] at h
      cases h

/-- Discarding what was set aside changes those places and no others. -/
theorem foldl_discard (new : List Completed) (fs : Folders C) (p : String) :
    ((∃ d ∈ new, d.hadAside = true ∧ d.aside = p) →
      new.foldl (fun fs d => d.discard fs) fs p = none) ∧
    ((∀ d ∈ new, d.hadAside = true → p ≠ d.aside) →
      new.foldl (fun fs d => d.discard fs) fs p = fs p) := by
  induction new generalizing fs with
  | nil => exact ⟨fun ⟨d, hd, _⟩ => absurd hd List.not_mem_nil, fun _ => rfl⟩
  | cons d new ih =>
    rw [List.foldl_cons]
    obtain ⟨hgone, hkept⟩ := ih (d.discard fs)
    constructor
    · rintro ⟨d', hd', hhad, rfl⟩
      by_cases hlater : ∃ e ∈ new, e.hadAside = true ∧ e.aside = d'.aside
      · exact hgone hlater
      · rcases List.mem_cons.1 hd' with rfl | hd'
        · rw [hkept fun e he hehad heq => hlater ⟨e, he, hehad, heq.symm⟩, Completed.discard, if_pos hhad,
            removeAll_self]
        · exact absurd ⟨d', hd', hhad, rfl⟩ hlater
    · intro hp
      rw [hkept fun e he => hp e (List.mem_cons_of_mem d he), Completed.discard]
      by_cases hhad : d.hadAside = true
      · rw [if_pos hhad, removeAll_of_ne (hp d List.mem_cons_self hhad)]
      · rw [if_neg hhad]

/-- What the swaps of a successful restore have done. -/
structure Swapped (stamp : String) (swaps : List WorldSwap) (fs fs' : Folders C) : Prop where
  placed : ∀ sw ∈ swaps, fs sw.staged ≠ none ∧ fs' sw.target = fs sw.staged
  aside : ∀ sw ∈ swaps, fs' (sw.aside stamp) = fs (sw.aside stamp)
  frame : ∀ p, (∀ sw ∈ swaps, p ≠ sw.staged ∧ p ≠ sw.target ∧ p ≠ sw.aside stamp) → fs' p = fs p

/-- A restore that succeeds has swapped everything and left nothing aside. -/
theorem swapped_of_ok {restored : List String} (hpaths : SwapPaths stamp swaps)
    (h : swapWorldDirs fault stamp swaps fs = (.ok restored, fs')) :
    restored = swaps.map (·.target) ∧ Swapped stamp swaps fs fs' := by
  unfold swapWorldDirs at h
  cases hloop : swapLoop fault stamp 0 swaps [] fs with
  | mk result fs₁ =>
    rw [hloop] at h
    cases result with
    | error e => cases h
    | ok all =>
      cases h
      obtain ⟨_, rfl, hnew⟩ := allPlaced_of_ok hpaths hloop
      refine ⟨hnew.targets, fun sw hsw => ?_, fun sw hsw => ?_, fun p hp => ?_⟩
      · have hkept : ∀ d ∈ all, d.hadAside = true → sw.target ≠ d.aside := by
          intro d hd _ heq
          obtain ⟨sw', hsw', haside⟩ := hnew.asides d hd
          exact hpaths.aside_target sw' hsw' sw hsw (haside.symm.trans heq.symm)
        obtain ⟨hstaged, htarget⟩ := hnew.placed sw hsw
        exact ⟨hstaged, by rw [(foldl_discard all fs₁ _).2 hkept, htarget]⟩
      · by_cases haside : ∃ d ∈ all, d.hadAside = true ∧ d.aside = sw.aside stamp
        · rw [(foldl_discard all fs₁ _).1 haside]
          obtain ⟨d, hd, hhad, heq⟩ := haside
          rw [← heq, hnew.free d hd hhad]
        · have hfree : ∀ d ∈ all, d.hadAside = true → sw.aside stamp ≠ d.aside :=
            fun d hd hhad heq => haside ⟨d, hd, hhad, heq.symm⟩
          rw [(foldl_discard all fs₁ _).2 hfree]
          exact hnew.frame _ (fun sw' hsw' => ⟨(hpaths.staged_aside sw' hsw' sw hsw).symm,
            hpaths.aside_target sw hsw sw' hsw'⟩) hfree
      · have hfree : ∀ d ∈ all, d.hadAside = true → p ≠ d.aside := by
          intro d hd _ heq
          obtain ⟨sw, hsw, haside⟩ := hnew.asides d hd
          exact (hp sw hsw).2.2 (heq.trans haside)
        rw [(foldl_discard all fs₁ _).2 hfree]
        exact hnew.frame p (fun sw hsw => ⟨(hp sw hsw).1, (hp sw hsw).2.1⟩) hfree

/-- Either all targets hold their staged folders and nothing that was set aside is left, or all
hold what they held before. -/
theorem swapWorldDirs_allOrNothing (hpaths : SwapPaths stamp swaps) (fs : Folders C) :
    (∃ fs', swapWorldDirs fault stamp swaps fs = (.ok (swaps.map (·.target)), fs') ∧
      ∀ sw ∈ swaps, fs sw.staged ≠ none ∧ fs' sw.target = fs sw.staged ∧
        fs' (sw.aside stamp) = fs (sw.aside stamp)) ∨
    ∃ e fs', swapWorldDirs fault stamp swaps fs = (.error e, fs') ∧
      ∀ sw ∈ swaps, fs' sw.target = fs sw.target := by
  cases hrun : swapWorldDirs fault stamp swaps fs with
  | mk result fs' =>
    cases result with
    | ok restored =>
      obtain ⟨rfl, hswapped⟩ := swapped_of_ok hpaths hrun
      refine .inl ⟨fs', rfl, fun sw hsw => ?_⟩
      exact ⟨(hswapped.placed sw hsw).1, (hswapped.placed sw hsw).2, hswapped.aside sw hsw⟩
    | error e =>
      refine .inr ⟨e, fs', rfl, fun sw hsw => ?_⟩
      unfold swapWorldDirs at hrun
      cases hloop : swapLoop fault stamp 0 swaps [] fs with
      | mk result fs₁ =>
        rw [hloop] at hrun
        cases result with
        | ok all => cases hrun
        | error e' =>
          cases hrun
          have hagree : AgreeOff { p | ∃ sw ∈ swaps, p = sw.staged } fs' fs := agreeOff_of_error
            (fun sw hsw => ⟨sw, hsw, rfl⟩)
            (fun sw hsw ⟨sw', hsw', heq⟩ => hpaths.staged_target sw' hsw' sw hsw heq.symm)
            (fun sw hsw ⟨sw', hsw', heq⟩ => hpaths.staged_aside sw' hsw' sw hsw heq.symm)
            (show Undoable _ fs [] fs from fun g hg => hg) hloop
          exact hagree _ fun ⟨sw', hsw', heq⟩ => hpaths.staged_target sw' hsw' sw hsw heq.symm

/-! ## Swaps that nothing hinders -/

theorem rename_of_free {src dst : String} (hsrc : fs src ≠ none) (hdst : fs dst = none) :
    rename none src dst fs = .ok (move src dst fs) := by
  rw [rename, if_neg hsrc, if_neg (not_not.2 hdst)]

/-- A swap of a staged folder succeeds when no rename fails and the place aside is free. -/
theorem swapOne_of_free (hfault : ∀ n, fault n = none) (hstaged : fs sw.staged ≠ none)
    (haside : fs (sw.aside stamp) = none) (hst : sw.staged ≠ sw.target)
    (hsa : sw.staged ≠ sw.aside stamp) (i : Nat) (done : List Completed) :
    ∃ d fs', swapOne fault stamp i sw done fs = (.ok d, fs') := by
  have hta := sw.target_ne_aside stamp
  by_cases htarget : fs sw.target = none
  · have hfirst : rename (fault (2 * i)) sw.target (sw.aside stamp) fs = .error .notExist := by
      rw [hfault, rename]
      exact if_pos htarget
    have hsecond : rename (fault (2 * i + 1)) sw.staged sw.target fs =
        .ok (move sw.staged sw.target fs) := by
      rw [hfault, rename_of_free hstaged htarget]
    refine ⟨⟨sw.target, sw.aside stamp, false⟩, move sw.staged sw.target fs, ?_⟩
    rw [swapOne, hfirst]
    dsimp only
    rw [placeStaged, hsecond]
  · have hfirst : rename (fault (2 * i)) sw.target (sw.aside stamp) fs =
        .ok (move sw.target (sw.aside stamp) fs) := by
      rw [hfault, rename_of_free htarget haside]
    have hsecond : rename (fault (2 * i + 1)) sw.staged sw.target
        (move sw.target (sw.aside stamp) fs) =
          .ok (move sw.staged sw.target (move sw.target (sw.aside stamp) fs)) := by
      rw [hfault, rename_of_free _ (move_src hta fs)]
      rwa [move_of_ne hst hsa]
    refine ⟨⟨sw.target, sw.aside stamp, true⟩,
      move sw.staged sw.target (move sw.target (sw.aside stamp) fs), ?_⟩
    rw [swapOne, hfirst]
    dsimp only
    rw [placeStaged, hsecond]

/-- All swaps succeed when no rename fails and every place aside is free. -/
theorem swapLoop_of_free (hfault : ∀ n, fault n = none) (hpaths : SwapPaths stamp swaps)
    (hnodup : (swaps.map (·.staged)).Nodup) (hstaged : ∀ sw ∈ swaps, fs sw.staged ≠ none)
    (haside : ∀ sw ∈ swaps, fs (sw.aside stamp) = none) (i : Nat) (done : List Completed) :
    ∃ all fs', swapLoop fault stamp i swaps done fs = (.ok all, fs') := by
  induction swaps generalizing i done fs with
  | nil => exact ⟨done, fs, rfl⟩
  | cons sw swaps ih =>
    have hself : sw ∈ sw :: swaps := List.mem_cons_self
    have hrest : ∀ {sw'}, sw' ∈ swaps → sw' ∈ sw :: swaps := List.mem_cons_of_mem sw
    have hst := hpaths.staged_target sw hself sw hself
    have hsa := hpaths.staged_aside sw hself sw hself
    rw [List.map_cons, List.nodup_cons] at hnodup
    obtain ⟨d, fs₁, hone⟩ := swapOne_of_free hfault (hstaged sw hself) (haside sw hself) hst hsa
      i done
    obtain ⟨d', fs', hone', hplaced⟩ | ⟨e, hone'⟩ := swapOne_cases fault i done fs hst hsa
    · rw [hone] at hone'
      cases hone'
      rw [swapLoop, hone]
      refine ih hpaths.tail hnodup.2 (fun sw' hsw' => ?_) (fun sw' hsw' => ?_) _ _
      · have hne : sw'.staged ≠ sw.staged := fun heq =>
          hnodup.1 (heq ▸ List.mem_map_of_mem hsw')
        rw [hplaced.frame hne (hpaths.staged_target sw' (hrest hsw') sw hself)
          fun _ => hpaths.staged_aside sw' (hrest hsw') sw hself]
        exact hstaged sw' (hrest hsw')
      · have htargets := hpaths.targets
        rw [List.map_cons, List.nodup_cons] at htargets
        rw [hplaced.frame (hpaths.staged_aside sw hself sw' (hrest hsw')).symm
          (hpaths.aside_target sw' (hrest hsw') sw hself)
          fun _ heq => htargets.1 (WorldSwap.aside_inj heq ▸ List.mem_map_of_mem hsw')]
        exact haside sw' (hrest hsw')
    · rw [hone] at hone'
      cases hone'

theorem swapWorldDirs_of_free (hfault : ∀ n, fault n = none) (hpaths : SwapPaths stamp swaps)
    (hnodup : (swaps.map (·.staged)).Nodup) (hstaged : ∀ sw ∈ swaps, fs sw.staged ≠ none)
    (haside : ∀ sw ∈ swaps, fs (sw.aside stamp) = none) :
    ∃ fs', swapWorldDirs fault stamp swaps fs = (.ok (swaps.map (·.target)), fs') := by
  obtain ⟨all, fs₁, hloop⟩ := swapLoop_of_free hfault hpaths hnodup hstaged haside 0 []
  have hrun : swapWorldDirs fault stamp swaps fs =
      (.ok (all.map (·.target)), all.foldl (fun fs d => d.discard fs) fs₁) := by
    rw [swapWorldDirs, hloop]
  exact ⟨all.foldl (fun fs d => d.discard fs) fs₁, (swapped_of_ok hpaths hrun).1 ▸ hrun⟩

end

/-! ## The paths of a restore -/

/-- A name of a file in its directory. -/
def IsName (name : String) : Prop := '/' ∉ name.toList

/-- What is staged in a directory of its own beside the worlds stands at no world's path. -/
theorem staged_ne {parentDir tmpName name other : String} (hother : IsName other) :
    joinPath (joinPath parentDir tmpName) name ≠ joinPath parentDir other := by
  intro h
  have hlist := congrArg String.toList h
  simp only [joinPath, String.toList_append, List.append_assoc, List.append_cancel_left_eq] at hlist
  refine hother ?_
  rw [← hlist]
  exact List.mem_append_right _ (List.mem_append_left _ (by decide))

theorem aside_name (parentDir stamp name : String) :
    joinPath parentDir name ++ ".bak-" ++ stamp = joinPath parentDir (name ++ ".bak-" ++ stamp) := by
  simp only [joinPath, String.append_assoc]

/-- No dimension folder of a world has the name under which another is set aside. -/
theorem sibling_ne_aside {worldName stamp a b : String} (ha : a ∈ worldSiblings worldName)
    (hb : b ∈ worldSiblings worldName) : a ++ ".bak-" ++ stamp ≠ b := by
  have hsuffix : ∀ c ∈ worldSiblings worldName,
      ∃ suffix ∈ ["", "_nether", "_the_end"], c = worldName ++ suffix := by
    intro c hc
    simp only [worldSiblings, List.map_cons, List.map_nil, List.mem_cons, List.not_mem_nil,
      or_false] at hc
    rcases hc with rfl | rfl | rfl
    · exact ⟨"", by decide, String.append_empty.symm⟩
    · exact ⟨"_nether", by decide, rfl⟩
    · exact ⟨"_the_end", by decide, rfl⟩
  obtain ⟨x, hx, rfl⟩ := hsuffix a ha
  obtain ⟨y, hy, rfl⟩ := hsuffix b hb
  intro h
  have hlist := congrArg String.toList h
  simp only [String.toList_append, List.append_assoc, List.append_cancel_left_eq] at hlist
  simp only [List.mem_cons, List.not_mem_nil, or_false] at hx hy
  rcases hx with rfl | rfl | rfl <;> rcases hy with rfl | rfl | rfl <;> simp at hlist

theorem joinPath_inj {dir a b : String} (h : joinPath dir a = joinPath dir b) : a = b := by
  have hlist := congrArg String.toList h
  simp only [joinPath, String.toList_append, List.append_cancel_left_eq] at hlist
  exact String.toList_inj.1 hlist

/-- The swaps of an extracted archive keep apart: its entries are names in a directory of their
own beside the worlds. -/
theorem swapPaths_stagedWorldSwaps {parentDir tmpName worldName stamp : String}
    {entries : List DirEntry} {swaps : List WorldSwap} (hnodup : (entries.map (·.name)).Nodup)
    (hnames : ∀ e ∈ entries, IsName e.name) (hstamp : IsName stamp)
    (h : (stagedWorldSwaps (joinPath parentDir tmpName) parentDir worldName entries).1 = .ok swaps) :
    SwapPaths stamp swaps := by
  unfold stagedWorldSwaps at h
  dsimp only at h
  generalize hdirs : ((entries.filter (·.isDir)).map (·.name)).filter
    (· ∈ worldSiblings worldName) = names at h
  have hsiblings : ∀ name ∈ names, name ∈ worldSiblings worldName ∧ IsName name := by
    intro name hname
    rw [← hdirs, List.mem_filter] at hname
    obtain ⟨e, he, rfl⟩ := List.mem_map.1 hname.1
    exact ⟨of_decide_eq_true hname.2, hnames e (List.mem_filter.1 he).1⟩
  have hdistinct : names.Nodup := by
    rw [← hdirs]
    exact ((hnodup.sublist (List.filter_sublist.map _)).filter _)
  split at h
  · cases h
  · cases h
    have hmem : ∀ sw ∈ names.map fun name =>
        ({ staged := joinPath (joinPath parentDir tmpName) name,
           target := joinPath parentDir name } : WorldSwap), ∃ name ∈ names,
        sw.staged = joinPath (joinPath parentDir tmpName) name ∧
          sw.target = joinPath parentDir name := by
      intro sw hsw
      obtain ⟨name, hname, rfl⟩ := List.mem_map.1 hsw
      exact ⟨name, hname, rfl, rfl⟩
    refine ⟨?_, ?_, ?_, ?_⟩
    · rw [List.map_map]
      exact hdistinct.map fun a b hab => joinPath_inj hab
    · intro sw hsw sw' hsw'
      obtain ⟨a, -, hstaged, -⟩ := hmem sw hsw
      obtain ⟨b, hb, -, htarget⟩ := hmem sw' hsw'
      rw [hstaged, htarget]
      exact staged_ne (hsiblings b hb).2
    · intro sw hsw sw' hsw'
      obtain ⟨a, -, hstaged, -⟩ := hmem sw hsw
      obtain ⟨b, hb, -, htarget⟩ := hmem sw' hsw'
      rw [WorldSwap.aside, hstaged, htarget, aside_name]
      refine staged_ne ?_
      simp only [IsName, String.toList_append, List.mem_append, not_or]
      exact ⟨⟨(hsiblings b hb).2, by decide⟩, hstamp⟩
    · intro sw hsw sw' hsw' heq
      obtain ⟨a, ha, -, haside⟩ := hmem sw hsw
      obtain ⟨b, hb, -, htarget⟩ := hmem sw' hsw'
      rw [WorldSwap.aside, haside, htarget, aside_name] at heq
      exact sibling_ne_aside (hsiblings a ha).1 (hsiblings b hb).1 (joinPath_inj heq)

/-- All swaps a restore makes keep apart, the extraction directory having a name of its own. -/
theorem swapPaths_restoreSwaps {parentDir tmpName worldName stamp : String} {multiRoot : Bool}
    {entries : List DirEntry} {swaps : List WorldSwap} (hnodup : (entries.map (·.name)).Nodup)
    (hnames : ∀ e ∈ entries, IsName e.name) (hstamp : IsName stamp) (hworld : tmpName ≠ worldName)
    (haside : tmpName ≠ worldName ++ ".bak-" ++ stamp)
    (h : restoreSwaps (joinPath parentDir tmpName) parentDir worldName multiRoot entries =
      .ok swaps) : SwapPaths stamp swaps := by
  unfold restoreSwaps at h
  cases multiRoot with
  | true => exact swapPaths_stagedWorldSwaps hnodup hnames hstamp h
  | false =>
    cases h
    refine ⟨List.nodup_singleton _, ?_, ?_, ?_⟩
    all_goals
      intro sw hsw sw' hsw'
      obtain rfl := List.mem_singleton.1 hsw
      obtain rfl := List.mem_singleton.1 hsw'
    · exact fun heq => hworld (joinPath_inj heq)
    · rw [WorldSwap.aside, aside_name]
      exact fun heq => haside (joinPath_inj heq)
    · exact (WorldSwap.target_ne_aside stamp _).symm

/-! ## A failure at the second dimension -/

/-- The swaps of a world with a nether. -/
def netherSwaps : List WorldSwap :=
  [⟨"/srv/konnekt-restore-1/world", "/srv/world"⟩,
    ⟨"/srv/konnekt-restore-1/world_nether", "/srv/world_nether"⟩]

/-- The staged folders, and the overworld that was there. -/
def netherFolders : Folders Nat := fun path =>
  if path = "/srv/konnekt-restore-1/world" then some 1
  else if path = "/srv/konnekt-restore-1/world_nether" then some 2
  else if path = "/srv/world" then some 0
  else none

/-- With the last rename failing, the overworld is the old one again and there is no nether. -/
theorem swapWorldDirs_allOrNothing_nether : ∃ e fs',
    swapWorldDirs (fun n => if n = 3 then some "disk full" else none) "20260101-000000" netherSwaps
      netherFolders = (.error e, fs') ∧
    ∀ sw ∈ netherSwaps, fs' sw.target = netherFolders sw.target := by
  have hpaths : SwapPaths "20260101-000000" netherSwaps :=
    ⟨by decide, by decide, by decide, by decide⟩
  refine (swapWorldDirs_allOrNothing hpaths netherFolders).resolve_left ?_
  rintro ⟨fs', hrun, -⟩
  have hfailed : (swapWorldDirs (fun n => if n = 3 then some "disk full" else none)
      "20260101-000000" netherSwaps netherFolders).1 ≠
        .ok (netherSwaps.map (·.target)) := by decide +kernel
  exact hfailed (by rw [hrun])

end Konnekt.Backup
