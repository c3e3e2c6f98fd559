import Konnekt.Backup.Archive
import Konnekt.Go.Value
import Mathlib.Logic.Function.Basic

/-!
# The working directory of a server

The entries of a server's directory and the file operations on them. The file
system may take different spellings of a name for one entry, and an entry may be a
link to another one. Every operation that writes may fail for a reason of its own.
-/

namespace Konnekt.Worlds

open Go

/-- An entry of the working directory. -/
inductive Entry where
  | dir (files : Tree)
  | file (data : List UInt8)
  /-- A symbolic link to another entry. -/
  | link (target : String)
  deriving DecidableEq

/-- Where a link leads, if it is one. -/
def linkTarget : Option Entry → Option String
  | some (.link target) => some target
  | _ => none

/-- `server.properties`: its lines, and the error that ended the reading of them. -/
inductive PropertiesFile where
  | missing
  | unreadable (err : String)
  | lines (ls : List String) (err : Option String)
  deriving DecidableEq, Repr

/-- The directory at a path. Entries are stored under one spelling of their names; the other
places a link can lead to are entries too, under names no folder has. -/
structure WorkingDir where
  path : String
  entries : String → Option Entry
  properties : PropertiesFile

section

variable (fold : String → String) (w : WorkingDir)

namespace WorkingDir

/-- `filepath.Join` with the working directory. -/
def join (name : String) : String := Backup.joinPath w.path name

/-- `os.Lstat`. -/
def lstat (name : String) : Option Entry := w.entries (fold name)

/-- Where a name leads, links followed: the system gives up after forty. -/
def follow : Nat → String → Option String
  | 0, _ => none
  | n + 1, name =>
    match linkTarget (w.lstat fold name) with
    | some target => follow n target
    | none => some (fold name)

/-- The place a name leads to. -/
def place (name : String) : Option String := w.follow fold 40 name

/-- `os.Stat`: the place a name leads to, and what is there. -/
def stat (name : String) : Option (String × Entry) := do
  let p ← w.place fold name
  return (p, ← w.entries p)

/-- `os.SameFile` of what two names lead to, if both lead to something. -/
def sameFile (a b : String) : Bool :=
  match w.stat fold a, w.stat fold b with
  | some (p, _), some (q, _) => p == q
  | _, _ => false

/-- An entry put at a place, or taken away. -/
def put (p : String) (e : Option Entry) : WorkingDir :=
  { w with entries := Function.update w.entries p e }

/-- `os.RemoveAll`; one that fails leaves some part of a folder behind. -/
def removeAll (fault : Option (String × Tree)) (name : String) : Except String Unit × WorkingDir :=
  match fault, w.lstat fold name with
  | some (err, rest), some (.dir _) => (.error err, w.put (fold name) (some (.dir rest)))
  | some (err, _), _ => (.error err, w)
  | none, _ => (.ok (), w.put (fold name) none)

/-- `os.Rename`: a directory is never replaced, another entry is. -/
def rename (fault : Option String) (old new : String) : Except String WorkingDir :=
  let failed err := .error ("rename " ++ w.join old ++ " " ++ w.join new ++ ": " ++ err)
  match fault with
  | some err => failed err
  | none =>
    match w.lstat fold old, w.lstat fold new with
    | none, _ => failed "no such file or directory"
    | some e, none => .ok ((w.put (fold old) none).put (fold new) (some e))
    | some e, some other =>
      if fold old = fold new then .ok w
      else match other, e with
        | .dir _, _ => failed "file exists"
        | _, .dir _ => failed "not a directory"
        | _, _ => .ok ((w.put (fold old) none).put (fold new) (some e))

/-- `os.MkdirAll` of a name: the place of the directory, and what is in it. -/
def mkdirAll (name : String) : Except String (String × Tree) :=
  match w.stat fold name with
  | some (p, .dir files) => .ok (p, files)
  | some _ => .error "not a directory"
  | none =>
    match w.lstat fold name with
    | none => .ok (fold name, ∅)
    | some _ => .error "file exists"

/-- `os.Create` of a name: the place of the file. -/
def create (name : String) : Except String String :=
  match w.place fold name with
  | none => .error "too many levels of symbolic links"
  | some p =>
    match w.entries p with
    | some (.dir _) => .error "is a directory"
    | _ => .ok p

end WorkingDir

/-! ## Copying -/

/-- One node of the walk copied into the tree of the destination. A file copied onto itself is
truncated before it is read. -/
def copyNode (skip : Bool) (root : String) (onto : Bool) (t : Tree) (n : List String × Node) :
    Except String Tree :=
  match n.2 with
  | .dir => t.mkdirAll n.1
  | .file data =>
    if skip && Backup.isLodDatabase root n.1 then .ok t
    else t.createFile n.1 (if onto then [] else data)

/-- The walk over the nodes of a tree; an error ends it with what was copied before. -/
def copyNodes (skip : Bool) (root : String) (onto : Bool) :
    List (List String × Node) → Tree → Except String Unit × Tree
  | [], t => (.ok (), t)
  | n :: ns, t =>
    match copyNode skip root onto t n with
    | .error e => (.error e, t)
    | .ok t => copyNodes skip root onto ns t

/-- What `copyFile` reads from an entry that is no directory. -/
def readEntry (p : String) : Except String (List UInt8) :=
  match w.stat fold p with
  | some (_, .file data) => .ok data
  | some _ => .error "is a directory"
  | none => .error "no such file or directory"

/-- A copy the disk fails: the error, and what it leaves of a folder or of a file. -/
structure CopyFault where
  err : String
  files : Tree
  data : List UInt8

/-- `copyDir`. -/
def copyDir (fault : Option CopyFault) (skip : Bool) (src dst : String) :
    Except String Unit × WorkingDir :=
  if ¬ (w.path ++ "/").toList <+: (w.join dst ++ "/").toList then
    (.error "copy destination escapes working directory", w)
  else match w.lstat fold src with
    | none => (.error "no such file or directory", w)
    | some (.dir files) =>
      match w.mkdirAll fold dst with
      | .error e => (.error e, w)
      | .ok (p, there) =>
        match fault with
        | some f => (.error f.err, w.put p (some (.dir f.files)))
        | none =>
          let (result, copied) := copyNodes skip src (p = fold src) files.walk there
          (result, w.put p (some (.dir copied)))
    | some _ =>
      -- the walk does not follow a link, so the folder it leads to is opened as a file
      match w.create fold dst with
      | .error e => (.error e, w)
      | .ok p =>
        match fault with
        | some f => (.error f.err, w.put p (some (.file f.data)))
        | none =>
          let w := w.put p (some (.file []))
          match readEntry fold w src with
          | .error e => (.error e, w)
          | .ok data => (.ok (), w.put p (some (.file data)))

end

end Konnekt.Worlds
