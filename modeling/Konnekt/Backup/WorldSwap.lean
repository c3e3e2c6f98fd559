import Konnekt.Go.Folders
import Mathlib.Data.List.Nodup

/-!
# Putting restored worlds in place

A world restore extracts an archive beside the worlds and swaps every dimension
folder of it with the one that is there. The folders that were there are set
aside, put back when a later swap fails, and removed once all have succeeded.
-/

namespace Konnekt.Backup

open Go Folders

/-- `worldSwap`: a folder under the extraction directory, and where it belongs. -/
structure WorldSwap where
  staged : String
  target : String
  deriving DecidableEq, Repr

/-- A failed restore: what was being done, and the error. -/
structure RestoreFailure where
  during : String
  err : RenameError
  deriving DecidableEq, Repr

/-- A swap that is in place. -/
structure Completed where
  target : String
  aside : String
  hadAside : Bool
  deriving DecidableEq, Repr

/-- Where the folder at the target of a swap is set aside. -/
def WorldSwap.aside (stamp : String) (sw : WorldSwap) : String := sw.target ++ ".bak-" ++ stamp

section

variable {C : Type}

/-- Put one swapped folder back. -/
def Completed.undo (d : Completed) (fs : Folders C) : Folders C :=
  let fs := removeAll d.target fs
  if d.hadAside then tryRename d.aside d.target fs else fs

/-- Put the swapped folders back, the last one first. -/
def rollback (done : List Completed) (fs : Folders C) : Folders C :=
  done.foldr Completed.undo fs

/-- Remove what a successful swap set aside. -/
def Completed.discard (d : Completed) (fs : Folders C) : Folders C :=
  if d.hadAside then removeAll d.aside fs else fs

variable (fault : Nat → Option String) (stamp : String)

/-- The second rename of swap number `i`, undone when it fails. -/
def placeStaged (i : Nat) (sw : WorldSwap) (hadAside : Bool) (done : List Completed)
    (fs : Folders C) : Except RestoreFailure Completed × Folders C :=
  match rename (fault (2 * i + 1)) sw.staged sw.target fs with
  | .ok fs => (.ok ⟨sw.target, sw.aside stamp, hadAside⟩, fs)
  | .error e =>
    let fs := if hadAside then tryRename (sw.aside stamp) sw.target fs else fs
    (.error ⟨"swapping files, previous state kept", e⟩, rollback done fs)

/-- Swap number `i`: what is at the target is moved aside, and the staged folder moved there. -/
def swapOne (i : Nat) (sw : WorldSwap) (done : List Completed) (fs : Folders C) :
    Except RestoreFailure Completed × Folders C :=
  match rename (fault (2 * i)) sw.target (sw.aside stamp) fs with
  | .ok fs => placeStaged fault stamp i sw true done fs
  | .error .notExist => placeStaged fault stamp i sw false done fs
  | .error e => (.error ⟨"moving the current files aside", e⟩, rollback done fs)

/-- The loop of `swapWorldDirs`. -/
def swapLoop : Nat → List WorldSwap → List Completed → Folders C →
    Except RestoreFailure (List Completed) × Folders C
  | _, [], done, fs => (.ok done, fs)
  | i, sw :: swaps, done, fs =>
    match swapOne fault stamp i sw done fs with
    | (.ok d, fs) => swapLoop (i + 1) swaps (done ++ [d]) fs
    | (.error e, fs) => (.error e, fs)

/-- `swapWorldDirs`: the targets that were replaced. The rename with number `n` fails with the
message `fault n`, if there is one. -/
def swapWorldDirs (swaps : List WorldSwap) (fs : Folders C) :
    Except RestoreFailure (List String) × Folders C :=
  match swapLoop fault stamp 0 swaps [] fs with
  | (.ok done, fs) =>
    (.ok (done.map (·.target)), done.foldl (fun fs d => d.discard fs) fs)
  | (.error e, fs) => (.error e, fs)

end

/-! ## The swaps of a restore -/

/-- `filepath.Join` of a directory and a name in it. -/
def joinPath (dir name : String) : String := dir ++ "/" ++ name

/-- The folder names of a world and its dimensions. -/
def worldSiblings (worldName : String) : List String :=
  worldName :: ["_nether", "_the_end"].map (worldName ++ ·)

/-- An entry of a directory. -/
structure DirEntry where
  name : String
  isDir : Bool
  deriving DecidableEq, Repr

/-- `stagedWorldSwaps`: the swaps for an extracted archive, and the folders left out. -/
def stagedWorldSwaps (tmp parentDir worldName : String) (entries : List DirEntry) :
    Except String (List WorldSwap) × List String :=
  let dirs := (entries.filter (·.isDir)).map (·.name)
  let swaps := (dirs.filter (· ∈ worldSiblings worldName)).map fun name =>
    { staged := joinPath tmp name, target := joinPath parentDir name : WorldSwap }
  let skipped := dirs.filter (· ∉ worldSiblings worldName)
  (if swaps = [] then .error "the archive holds no world folders" else .ok swaps, skipped)

/-- The swaps `RestoreBackup` makes: one for the old layout, where the extraction directory is
the world folder itself, and one for each dimension folder of the new. -/
def restoreSwaps (tmp parentDir worldName : String) (multiRoot : Bool) (entries : List DirEntry) :
    Except String (List WorldSwap) :=
  if multiRoot then (stagedWorldSwaps tmp parentDir worldName entries).1
  else .ok [⟨tmp, joinPath parentDir worldName⟩]

end Konnekt.Backup
