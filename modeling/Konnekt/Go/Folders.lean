import Mathlib.Data.List.Basic
import Mathlib.Logic.Function.Basic

/-!
# Directories and renames

The directories beside one another on a disk, as the `os` package renames and
removes them. No path here lies inside another. A rename that is to fail for a
reason outside the model does so before anything else.
-/

namespace Go

/-- The directories that exist, by path, with what they hold. -/
abbrev Folders (C : Type) := String → Option C

inductive RenameError where
  | notExist
  | exist
  /-- Any other reason, such as a file held open or a full disk. -/
  | other (message : String)
  deriving DecidableEq, Repr

namespace Folders

variable {C : Type}

/-- `os.RemoveAll`. -/
def removeAll (path : String) (fs : Folders C) : Folders C := Function.update fs path none

/-- A directory in the place of another path. -/
def move (src dst : String) (fs : Folders C) : Folders C :=
  Function.update (removeAll src fs) dst (fs src)

/-- `os.Rename` of a directory: the source has to exist, the destination must not. -/
def rename (fault : Option String) (src dst : String) (fs : Folders C) :
    Except RenameError (Folders C) :=
  match fault with
  | some message => .error (.other message)
  | none =>
    if fs src = none then .error .notExist
    else if fs dst ≠ none then .error .exist
    else .ok (move src dst fs)

/-- A rename of which the error is dropped. -/
def tryRename (src dst : String) (fs : Folders C) : Folders C :=
  match rename none src dst fs with
  | .ok fs' => fs'
  | .error _ => fs

/-- A rename succeeds from an existing directory to a free path. -/
theorem rename_ok {fault : Option String} {src dst : String} {fs fs' : Folders C}
    (h : rename fault src dst fs = .ok fs') :
    fs src ≠ none ∧ fs dst = none ∧ fs' = move src dst fs := by
  unfold rename at h
  cases fault with
  | some message => cases h
  | none =>
    dsimp only at h
    by_cases hsrc : fs src = none
    · rw [if_pos hsrc] at h
      cases h
    · by_cases hdst : fs dst = none
      · rw [if_neg hsrc, if_neg (not_not.2 hdst)] at h
        cases h
        exact ⟨hsrc, hdst, rfl⟩
      · rw [if_neg hsrc, if_pos hdst] at h
        cases h

/-- A rename reports a missing source only when there is none. -/
theorem rename_notExist {fault : Option String} {src dst : String} {fs : Folders C}
    (h : rename fault src dst fs = .error .notExist) : fs src = none := by
  unfold rename at h
  cases fault with
  | some message => cases h
  | none =>
    by_contra hsrc
    dsimp only at h
    rw [if_neg hsrc] at h
    by_cases hdst : fs dst = none
    · rw [if_neg (not_not.2 hdst)] at h
      cases h
    · rw [if_pos hdst] at h
      cases h

/-- A dropped error leaves everything as it was. -/
theorem tryRename_eq (src dst : String) (fs : Folders C) :
    tryRename src dst fs = if fs src = none ∨ fs dst ≠ none then fs else move src dst fs := by
  unfold tryRename rename
  by_cases hsrc : fs src = none
  · simp only [hsrc, if_true, true_or]
  · by_cases hdst : fs dst = none
    · simp only [hsrc, hdst, if_false, ne_eq, not_true_eq_false, or_self]
    · simp only [hsrc, hdst, if_false, ne_eq, not_false_eq_true, if_true, or_true]

theorem tryRename_of_free {src dst : String} {fs : Folders C} (hsrc : fs src ≠ none)
    (hdst : fs dst = none) : tryRename src dst fs = move src dst fs := by
  rw [tryRename_eq, if_neg]
  exact fun h => h.elim hsrc (· hdst)

@[simp] theorem removeAll_self (path : String) (fs : Folders C) : removeAll path fs path = none := by
  simp [removeAll]

theorem removeAll_of_ne {path p : String} (h : p ≠ path) (fs : Folders C) :
    removeAll path fs p = fs p := by
  simp [removeAll, h]

@[simp] theorem move_dst (src dst : String) (fs : Folders C) : move src dst fs dst = fs src :=
  Function.update_self dst _ _

theorem move_src {src dst : String} (h : src ≠ dst) (fs : Folders C) :
    move src dst fs src = none := by
  rw [move, Function.update_of_ne h, removeAll_self]

theorem move_of_ne {src dst p : String} (hsrc : p ≠ src) (hdst : p ≠ dst) (fs : Folders C) :
    move src dst fs p = fs p := by
  rw [move, Function.update_of_ne hdst, removeAll_of_ne hsrc]

/-- A directory moved to a free path and back again. -/
theorem move_move {src dst : String} {fs : Folders C} (hne : src ≠ dst) (hdst : fs dst = none) :
    move dst src (move src dst fs) = fs := by
  funext p
  by_cases hpsrc : p = src
  · rw [hpsrc, move_dst, move_dst]
  · by_cases hpdst : p = dst
    · rw [hpdst, move_src hne.symm, hdst]
    · rw [move_of_ne hpdst hpsrc, move_of_ne hpsrc hpdst]

/-- A rename is undone by the one back. -/
theorem tryRename_move {src dst : String} {fs : Folders C} (hne : src ≠ dst) (hsrc : fs src ≠ none)
    (hdst : fs dst = none) : tryRename dst src (move src dst fs) = fs := by
  have hmoved : move src dst fs dst ≠ none := by rwa [move_dst]
  rw [tryRename_of_free hmoved (move_src hne fs), move_move hne hdst]

/-! ## Files

A file is renamed over what is at the destination. -/

/-- `os.Rename` of a file. -/
def renameFile (fault : Option String) (src dst : String) (fs : Folders C) :
    Except RenameError (Folders C) :=
  match fault with
  | some message => .error (.other message)
  | none => if fs src = none then .error .notExist else .ok (move src dst fs)

/-- A rename of a file of which the error is dropped. -/
def tryRenameFile (src dst : String) (fs : Folders C) : Folders C :=
  match renameFile none src dst fs with
  | .ok fs' => fs'
  | .error _ => fs

theorem renameFile_of_exists {src dst : String} {fs : Folders C} (h : fs src ≠ none) :
    renameFile none src dst fs = .ok (move src dst fs) :=
  if_neg h

theorem tryRenameFile_of_exists {src dst : String} {fs : Folders C} (h : fs src ≠ none) :
    tryRenameFile src dst fs = move src dst fs := by
  rw [tryRenameFile, renameFile_of_exists h]

/-- A file moved to a free path and removed there is a file removed. -/
theorem removeAll_move {src dst : String} {fs : Folders C} (hne : src ≠ dst) (hdst : fs dst = none) :
    removeAll dst (move src dst fs) = removeAll src fs := by
  funext p
  by_cases hpdst : p = dst
  · rw [hpdst, removeAll_self, removeAll_of_ne hne.symm, hdst]
  · rw [removeAll_of_ne hpdst]
    by_cases hpsrc : p = src
    · rw [hpsrc, move_src hne, removeAll_self]
    · rw [move_of_ne hpsrc hpdst, removeAll_of_ne hpsrc]

/-! ## Paths left alone -/

/-- The same directories, but for the given paths. -/
def AgreeOff (paths : Set String) (fs fs' : Folders C) : Prop := ∀ p, p ∉ paths → fs p = fs' p

variable {paths : Set String} {fs fs' : Folders C}

theorem AgreeOff.refl (paths : Set String) (fs : Folders C) : AgreeOff paths fs fs :=
  fun _ _ => rfl

theorem AgreeOff.trans {fs'' : Folders C} (h : AgreeOff paths fs fs')
    (h' : AgreeOff paths fs' fs'') : AgreeOff paths fs fs'' :=
  fun p hp => (h p hp).trans (h' p hp)

theorem AgreeOff.removeAll (h : AgreeOff paths fs fs') (path : String) :
    AgreeOff paths (removeAll path fs) (removeAll path fs') := by
  intro p hp
  by_cases hpath : p = path
  · rw [hpath, removeAll_self, removeAll_self]
  · rw [removeAll_of_ne hpath, removeAll_of_ne hpath, h p hp]

theorem AgreeOff.tryRename (h : AgreeOff paths fs fs') {src dst : String} (hsrc : src ∉ paths)
    (hdst : dst ∉ paths) : AgreeOff paths (tryRename src dst fs) (tryRename src dst fs') := by
  rw [tryRename_eq, tryRename_eq, h src hsrc, h dst hdst]
  by_cases hfail : fs' src = none ∨ fs' dst ≠ none
  · rw [if_pos hfail, if_pos hfail]
    exact h
  · rw [if_neg hfail, if_neg hfail]
    intro p hp
    by_cases hpdst : p = dst
    · rw [hpdst, move_dst, move_dst, h src hsrc]
    · by_cases hpsrc : p = src
      · subst hpsrc
        rw [move_src hpdst, move_src hpdst]
      · rw [move_of_ne hpsrc hpdst, move_of_ne hpsrc hpdst, h p hp]

end Folders

end Go
