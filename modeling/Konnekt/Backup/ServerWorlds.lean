import Konnekt.Backup.Unzip
import Konnekt.Go.Map
import Konnekt.Mcp.Parts

/-!
# The worlds of a server archive

An archive of a whole server lists its worlds: the folders at the top that hold a
`level.dat` are grouped by the world they belong to, the dimensions inside a world
are added, and every file counts for the folder with the longest name above it.
-/

namespace Konnekt.Backup

open Go
open Mcp (classifyWorldDir)

/-- `models.WorldDimension`, of an archive: its size and time are not set. -/
structure ZippedDimension where
  kind : String
  path : String
  deriving DecidableEq, Repr

/-- `models.WorldSystem`, over what a `level.dat` says. -/
structure WorldSystem (μ : Type) where
  name : String
  active : Bool := false
  totalSize : Int64 := 0
  modified : Int := 0
  dimensions : List ZippedDimension := []
  info : μ
  deriving DecidableEq

/-- What opening and reading an entry gives: as a `level.dat`, and the `level-name` of a
`server.properties`. -/
structure Reading (μ : Type) where
  levelDat : ZipFile → Option μ
  levelName : ZipFile → Option String

/-- `dirEntry`: a folder at the top that holds a `level.dat`. -/
structure LevelDatDir where
  dir : String
  kind : String
  base : String
  levelDat : Option ZipFile
  deriving DecidableEq, Repr

/-- `hasDimensionKind`. -/
def hasDimensionKind (dims : List ZippedDimension) (kind : String) : Bool :=
  dims.any fun d => d.kind == kind

section

variable {μ : Type} [Inhabited μ]

/-- One turn of the first pass of `worldsFromServerZip`. -/
def levelDatDir (f : ZipFile) : Option LevelDatDir :=
  if "/level.dat".toList <:+ f.name.toList then
    let dir := trimSuffix f.name "/level.dat"
    if '/' ∈ dir.toList then none
    else
      let (base, kind) := classifyWorldDir dir
      some ⟨dir, kind, base, if kind = "overworld" then some f else none⟩
  else none

/-- What the system of a folder says when the folder is the first of its world. -/
def LevelDatDir.info (read : Reading μ) (de : LevelDatDir) : μ :=
  (de.levelDat.bind read.levelDat).getD default

/-- One turn of the second pass. -/
def groupDir (read : Reading μ) (systems : GoMap (WorldSystem μ)) (de : LevelDatDir) :
    GoMap (WorldSystem μ) :=
  let sys := (systems.lookup de.base).getD { name := de.base, info := de.info read }
  systems.insert de.base { sys with dimensions := sys.dimensions ++ [⟨de.kind, de.dir⟩] }

/-- The sub-dimensions of a vanilla world, and their kinds. -/
def vanillaDimensions : List (String × String) := [("/DIM-1/", "nether"), ("/DIM1/", "the_end")]

/-- One turn of the third pass. -/
def addVanilla (files : List ZipFile) (base : String) (dims : List ZippedDimension)
    (sub : String × String) : List ZippedDimension :=
  if hasDimensionKind dims sub.2 then dims
  else if files.any fun f => decide ((base ++ sub.1).toList <+: f.name.toList) && !f.isDir then
    dims ++ [⟨sub.2, base ++ trimSuffix sub.1 "/"⟩]
  else dims

/-- The third pass; the systems go by their names. -/
def detectVanilla (files : List ZipFile) (systems : GoMap (WorldSystem μ)) :
    GoMap (WorldSystem μ) :=
  systems.mapVals fun sys =>
    { sys with dimensions := vanillaDimensions.foldl (addVanilla files sys.name) sys.dimensions }

/-- The prefixes of a system for its sub-dimensions. -/
def vanillaPrefixes (sys : WorldSystem μ) : List (String × String) :=
  (sys.dimensions.filter fun d => (d.kind == "nether" || d.kind == "the_end") &&
    decide ((sys.name ++ "/").toList <+: d.path.toList)).map fun d => (d.path ++ "/", sys.name)

/-- The prefixes that files count for, each with the name of its system. -/
def sizePrefixes (des : List LevelDatDir) (systems : GoMap (WorldSystem μ)) :
    List (String × String) :=
  des.map (fun de => (de.dir ++ "/", de.base)) ++ systems.values.flatMap vanillaPrefixes

/-- The longest prefix of a name, and its system. -/
def bestPrefix (prefixes : List (String × String)) (name : String) : Nat × Option String :=
  prefixes.foldl (fun best pe =>
    if pe.1.toList <+: name.toList ∧ best.1 < pe.1.utf8ByteSize then
      (pe.1.utf8ByteSize, some pe.2)
    else best) (0, none)

/-- One turn of the fourth pass. -/
def countFile (prefixes : List (String × String)) (systems : GoMap (WorldSystem μ))
    (f : ZipFile) : GoMap (WorldSystem μ) :=
  if f.isDir then systems
  else match (bestPrefix prefixes f.name).2 with
    | none => systems
    | some base => match systems.lookup base with
      | none => systems
      | some sys => systems.insert base
        { sys with
          totalSize := sys.totalSize + f.zipEntrySize
          modified := if sys.modified < f.modified then f.modified else sys.modified }

/-- The active world that the `server.properties` of the archive names. -/
def zippedLevelName (read : Reading μ) (files : List ZipFile) : String :=
  match files.find? fun f => f.name == "server.properties" with
  | some f => (read.levelName f).getD ""
  | none => ""

/-- `worldsFromServerZip`; the source lists the systems in the order of a map, which is any. -/
def worldsFromServerZip (read : Reading μ) (files : List ZipFile) : List (WorldSystem μ) :=
  let des := files.filterMap levelDatDir
  let grouped := detectVanilla files (des.foldl (groupDir read) ∅)
  let systems := files.foldl (countFile (sizePrefixes des grouped)) grouped
  systems.values.map fun sys => { sys with active := sys.name == zippedLevelName read files }

end

end Konnekt.Backup
