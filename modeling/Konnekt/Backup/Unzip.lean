import Konnekt.Backup.Archive
import Konnekt.Go.Resolve

/-!
# Archives from elsewhere

An archive that was not written here: its entries have any names, are directories
by their name or by their mode, and declare any sizes. Extracting one adds up what
it declares, and joins each name to the directory it is extracted to. Its layout is
read off its entries, or off what has been extracted.
-/

namespace Konnekt.Backup

open Go

/-- `zip.File`: what the archive declares of an entry, and what reading it gives. -/
structure ZipFile where
  name : String
  /-- The mode has the bit of directories. -/
  dirMode : Bool := false
  uncompressedSize64 : UInt64 := 0
  openFault : Option String := none
  content : List UInt8 := []
  /-- The error behind the content. -/
  readFault : Option String := none
  /-- `Modified.UnixMilli()`. -/
  modified : Int := 0
  deriving DecidableEq, Repr

/-- What is on the disk, and how many bytes have been copied to it. -/
structure Extraction where
  tree : Tree
  written : Nat := 0

namespace ZipFile

/-- `FileInfo().IsDir()`. -/
def isDir (f : ZipFile) : Bool := f.dirMode || f.name.toList.getLast? == some '/'

/-! ## The declared sizes -/

/-- `zipEntrySize`. -/
def zipEntrySize (f : ZipFile) : Int64 :=
  if maxZipEntrySize < f.uncompressedSize64.toNat then Int64.ofNat maxZipEntrySize
  else f.uncompressedSize64.toInt64

/-- One turn of the loop of `zipDeclaredTotal`. -/
def addDeclared (total : UInt64) (f : ZipFile) : Except String UInt64 :=
  if f.isDir then .ok total
  else if maxZipEntrySize < f.uncompressedSize64.toNat then
    .error s!"archive entry {quote f.name} declares {f.uncompressedSize64} bytes, more than the {maxZipEntrySize} a restore will extract"
  else
    let total := total + f.uncompressedSize64
    if maxZipTotalSize < total.toNat then
      .error s!"archive declares more than the {maxZipTotalSize} bytes a restore will extract in total"
    else .ok total

/-- `zipDeclaredTotal`. -/
def zipDeclaredTotal (files : List ZipFile) : Except String Int64 :=
  if maxZipEntries < files.length then
    .error s!"archive declares {files.length} entries, more than the {maxZipEntries} a restore will extract"
  else (files.foldlM addDeclared 0).map UInt64.toInt64

/-! ## Extracting -/

/-- One turn of the loop of `unzipTo`, in the working directory `cwd`. -/
def extract (cwd : List String) (destDir : String) (x : Extraction) (f : ZipFile) :
    Option String × Extraction :=
  let target := Path.join [destDir, f.name]
  if ¬ (Path.clean destDir ++ "/").toList <+: (Path.clean target ++ "/").toList then
    (some ("illegal path in zip: " ++ f.name), x)
  else if f.isDir then
    match x.tree.mkdirAll (Path.resolve cwd target) with
    | .error e => (some e, x)
    | .ok t => (none, { x with tree := t })
  else match x.tree.mkdirAll (Path.resolve cwd (Path.dir target)) with
    | .error e => (some e, x)
    | .ok t =>
      match t.writeFile (Path.resolve cwd target) [] with
      | .error e => (some e, { x with tree := t })
      | .ok t =>
        match f.openFault with
        | some e => (some e, { x with tree := t })
        | none =>
          (f.readFault, ⟨t.insert (Path.resolve cwd target) (.file f.content),
            x.written + f.content.length⟩)

def extractAll (cwd : List String) (destDir : String) :
    List ZipFile → Extraction → Option String × Extraction
  | [], x => (none, x)
  | f :: files, x =>
    match f.extract cwd destDir x with
    | (some e, x) => (some e, x)
    | (none, x) => extractAll cwd destDir files x

/-- `unzipTo`: the error, if there is one, and what has been written by then. -/
def unzipTo (cwd : List String) (files : List ZipFile) (destDir : String) (t : Tree) :
    Option String × Extraction :=
  match zipDeclaredTotal files with
  | .error e => (some e, { tree := t })
  | .ok _ => extractAll cwd destDir files { tree := t }

/-! ## The layout -/

/-- The loop of `worldFilesAreMultiRoot`. -/
def namedRoot (pre : String) : Bool → List ZipFile → Bool
  | named, [] => named
  | named, f :: files =>
    if f.name = "level.dat" then false
    else namedRoot pre (if pre.toList <+: f.name.toList then true else named) files

/-- `worldFilesAreMultiRoot`. -/
def worldFilesAreMultiRoot (files : List ZipFile) (worldName : String) : Bool :=
  namedRoot (worldName ++ "/") false files

/-- `os.Stat`: what a path leads to. -/
def stat (cwd : List String) (t : Tree) (path : String) : Option Node :=
  if Path.resolve cwd path = [] then some .dir else t.lookup (Path.resolve cwd path)

/-- `stagedLayoutIsMultiRoot`, of paths. -/
def stagedLayoutIsMultiRoot (cwd : List String) (t : Tree) (tmp worldName : String) : Bool :=
  if (stat cwd t (Path.join [tmp, "level.dat"])).isSome then false
  else stat cwd t (Path.join [tmp, worldName]) == some .dir

end ZipFile

end Konnekt.Backup
