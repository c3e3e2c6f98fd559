import Konnekt.Backup.WorldSwap
import Konnekt.Go.Text
import Konnekt.Go.Tree

/-!
# World archives

Writing the folders of a world into an archive, and extracting an archive. An
archive is the list of its entries in the order they were written; a name that
ends in a slash is a directory's.
-/

namespace Konnekt.Backup

open Go

/-! ## Distant Horizons -/

/-- `lodDatabaseNames`. -/
def lodDatabaseNames : List String :=
  ["distanthorizons.sqlite", "distanthorizons.sqlite-wal", "distanthorizons.sqlite-shm"]

/-- `strings.ToLower`, as far as a name of only ASCII characters can come out of it. -/
def toLower (s : String) : String :=
  String.ofList (s.toList.map fun c => if c = 'İ' then 'i' else lower c)

/-- `isLodDatabase`, of a path inside the folder `root`. -/
def isLodDatabase (root : String) (path : List String) : Bool :=
  match (root :: path).reverse with
  | file :: parent :: _ =>
    toLower file ∈ lodDatabaseNames && String.ofList (parent.toList.map lower) == "data"
  | _ => false

/-! ## Writing -/

structure ZipEntry where
  name : String
  data : List UInt8
  deriving DecidableEq, Repr

/-- A path with slashes between its names; `.` is the path of the root. -/
def relPath : List String → String
  | [] => "."
  | [a] => a
  | a :: b :: p => a ++ "/" ++ relPath (b :: p)

/-- `zipEntryName`. -/
def zipEntryName (pre rel : String) : String :=
  if rel = "." then pre else if pre = "" then rel else pre ++ "/" ++ rel

/-- What the walk of `writeTreeToZip` writes for a node. -/
def zipNode (root pre : String) (skip : Bool) (n : List String × Node) : Option ZipEntry :=
  let name := zipEntryName pre (relPath n.1)
  match n.2 with
  | .dir => if name = "" then none else some ⟨name ++ "/", []⟩
  | .file data =>
    if n.1.getLast? = some "session.lock" then none
    else if skip && isLodDatabase root n.1 then none
    else some ⟨name, data⟩

/-- `writeTreeToZip` of the directory called `root`. -/
def writeTreeToZip (root pre : String) (skip : Bool) (t : Tree) : List ZipEntry :=
  (([], .dir) :: t.walk).filterMap (zipNode root pre skip)

/-- `zipRootsWithProgress`: every root under its own name. -/
def zipRootsWithProgress (skip : Bool) (roots : List (String × Tree)) : List ZipEntry :=
  roots.flatMap fun r => writeTreeToZip r.1 r.1 skip r.2

/-- `zipDirWithProgress`: the contents of one folder. -/
def zipDirWithProgress (skip : Bool) (root : String) (t : Tree) : List ZipEntry :=
  writeTreeToZip root "" skip t

/-! ## Extracting -/

def maxZipEntries : Nat := 2 ^ 20

def maxZipEntrySize : Nat := 64 * 2 ^ 30

def maxZipTotalSize : Nat := 2 ^ 40

/-- `FileInfo().IsDir()`. -/
def ZipEntry.isDir (e : ZipEntry) : Bool := e.name.toList.getLast? = some '/'

/-- The loop of `zipDeclaredTotal` over the entries. -/
def declaredTotal : Nat → List ZipEntry → Except String Nat
  | total, [] => .ok total
  | total, e :: es =>
    if e.isDir then declaredTotal total es
    else if maxZipEntrySize < e.data.length then
      .error s!"archive entry {quote e.name} declares {e.data.length} bytes, more than the {maxZipEntrySize} a restore will extract"
    else if maxZipTotalSize < total + e.data.length then
      .error s!"archive declares more than the {maxZipTotalSize} bytes a restore will extract in total"
    else declaredTotal (total + e.data.length) es

/-- `zipDeclaredTotal`. -/
def zipDeclaredTotal (files : List ZipEntry) : Except String Nat :=
  if maxZipEntries < files.length then
    .error s!"archive declares {files.length} entries, more than the {maxZipEntries} a restore will extract"
  else declaredTotal 0 files

/-- One name of a path being cleaned. -/
def cleanStep (path : List String) (name : String) : List String :=
  if name = "" ∨ name = "." then path
  else if name = ".." then path.dropLast
  else path ++ [name]

/-- `filepath.Join` of an absolute directory and a path with slashes. -/
def joinClean (dir : List String) (name : String) : List String :=
  (split name '/').foldl cleanStep dir

/-- One entry extracted by `unzipTo`. -/
def extractEntry (destDir : List String) (t : Tree) (e : ZipEntry) : Except String Tree :=
  let target := joinClean destDir e.name
  if ¬ destDir <+: target then .error ("illegal path in zip: " ++ e.name)
  else if e.isDir then t.mkdirAll target
  else t.createFile target e.data

/-- `unzipTo`, on the tree of the whole disk. -/
def unzipTo (archive : List ZipEntry) (destDir : List String) (t : Tree) : Except String Tree := do
  let _ ← zipDeclaredTotal archive
  archive.foldlM (extractEntry destDir) t

/-! ## Restoring -/

/-- What lies below a directory of the disk. -/
abbrev Contents := List String → Option Node

/-- The contents of the directory at a path. -/
def contentsAt (t : Tree) (path : List String) : Contents :=
  fun q => if q = [] then none else t.lookup (path ++ q)

/-- `os.ReadDir`. -/
def readDir (t : Tree) (dir : List String) : List DirEntry :=
  (t.walk.filter fun e => e.1.dropLast = dir ∧ e.1 ≠ []).map fun e =>
    ⟨e.1.getLastD "", e.2 == .dir⟩

/-- `stagedLayoutIsMultiRoot`. -/
def stagedLayoutIsMultiRoot (t : Tree) (tmp : List String) (worldName : String) : Bool :=
  if (t.lookup (tmp ++ ["level.dat"])).isSome then false
  else t.lookup (tmp ++ [worldName]) == some .dir

/-- The staged folders the swaps will move: where each stands, and its path on the disk. -/
def stagedFolders (t : Tree) (tmp : List String) (tmpPath : String) (multiRoot : Bool) :
    List (String × List String) :=
  if multiRoot then
    ((readDir t tmp).filter (·.isDir)).map fun d => (joinPath tmpPath d.name, tmp ++ [d.name])
  else [(tmpPath, tmp)]

/-- The folders beside one another once an archive has been extracted. -/
def stage (t : Tree) (staged : List (String × List String)) (folders : Folders Contents) :
    Folders Contents :=
  fun p => match staged.lookup p with
    | some path => some (contentsAt t path)
    | none => folders p

/-- The extraction directory is removed with whatever is left in it. -/
def unstage (staged : List (String × List String)) (folders : Folders Contents) :
    Folders Contents :=
  fun p => if (staged.lookup p).isSome then none else folders p

/-- How a restore of a world can fail. -/
inductive RestoreError where
  | extracting (err : String)
  | reading (err : String)
  | swapping (err : RestoreFailure)

/-- The part of `RestoreBackup` that replaces the folders of a world in `parentDir`: extract into
the empty directory `tmp`, and swap. -/
def restoreWorld (fault : Nat → Option String) (stamp : String) (tmp : List String)
    (tmpPath parentDir worldName : String) (archive : List ZipEntry) (folders : Folders Contents) :
    Except RestoreError (List String) × Folders Contents :=
  match unzipTo archive tmp ∅ with
  | .error e => (.error (.extracting e), folders)
  | .ok t =>
    let multiRoot := stagedLayoutIsMultiRoot t tmp worldName
    match restoreSwaps tmpPath parentDir worldName multiRoot (readDir t tmp) with
    | .error e => (.error (.reading e), folders)
    | .ok swaps =>
      let staged := stagedFolders t tmp tmpPath multiRoot
      let (result, folders) := swapWorldDirs fault stamp swaps (stage t staged folders)
      (result.mapError .swapping, unstage staged folders)

end Konnekt.Backup
