import Konnekt.Server.PropertiesText

/-!
# The mods of a jar

What Forge and NeoForge know a jar by stands in the first `[[mods]]` table of its
`mods.toml`. The code reads it line by line with one flag; beside it stand the documents it
is about, made of lines with tables, entries and comments, and what they say.
-/

namespace Konnekt.ModsToml

open Go Server

/-! ## The code -/

/-- `models.JarMeta`, with the fields a `mods.toml` gives. -/
structure JarMeta where
  id : String
  name : String
  version : String
  loader : String
  deriving DecidableEq, Repr

/-- The variables of the loop. -/
structure ModFields where
  modID : String
  version : String
  displayName : String
  deriving DecidableEq, Repr

/-- `splitTomlKV`. -/
def splitTomlKV (line : String) : String × String :=
  match cutAt '=' line with
  | none => ("", "")
  | some (key, value) =>
    (trimSpace key, String.ofList (trimWith (· = '"') (trimSpace value).toList))

/-- The `switch` on the key of a line. -/
def ModFields.read (m : ModFields) (line : String) : ModFields :=
  let (k, v) := splitTomlKV line
  if k = "modId" then { m with modID := v }
  else if k = "version" then { m with version := v }
  else if k = "displayName" then { m with displayName := v }
  else m

/-- The loop over the lines, with `inMods`. -/
def scanMods : Bool → ModFields → List String → ModFields
  | _, m, [] => m
  | inMods, m, line :: lines =>
    let line := trimSpace line
    if line = "[[mods]]" then scanMods true m lines
    else if ['[', '['] <+: line.toList ∧ inMods = true then m
    else if inMods = false then scanMods false m lines
    else scanMods true (m.read line) lines

/-- A placeholder is to be filled in by the build. -/
def isPlaceholder (version : String) : Bool := decide (['$', '\x7b'] <:+: version.toList)

/-- The version that is kept. -/
def readVersion (version : String) : String := if isPlaceholder version then "" else version

/-- `parseModsToml`, of what `readZipEntry` gives. -/
def parseModsToml (data : Except String String) (loader : String) : Option JarMeta :=
  match data with
  | .error _ => none
  | .ok text =>
    let m := scanMods false ⟨"", "", ""⟩ (scanProperties text).1
    if m.modID = "" then none
    else some {
      id := m.modID
      name := if m.displayName = "" then m.modID else m.displayName
      version := readVersion m.version
      loader := loader }

/-! ## Documents -/

/-- Spaces and tabs. -/
structure Blank where
  chars : List Char
  blank : ∀ c ∈ chars, c = ' ' ∨ c = '\t'
  deriving DecidableEq

/-- A character of a comment or a string: no control character but the tab. -/
def isText (c : Char) : Bool := c = '\t' || (0x20 ≤ c.toNat && c.toNat ≠ 0x7F)

/-- What stands behind a `#`. -/
structure Comment where
  body : List Char
  text : ∀ c ∈ body, isText c = true
  deriving DecidableEq

/-- The value of a hexadecimal digit. -/
def hexDigitVal (c : Char) : Option Nat :=
  if '0' ≤ c ∧ c ≤ '9' then some (c.toNat - 48)
  else if 'a' ≤ c ∧ c ≤ 'f' then some (c.toNat - 87)
  else if 'A' ≤ c ∧ c ≤ 'F' then some (c.toNat - 55)
  else none

def hexVal (digits : List Char) : Option Nat :=
  digits.foldlM (fun n c => (hexDigitVal c).map (16 * n + ·)) 0

/-- A character by its number, in four digits or in eight. -/
structure CodePoint where
  digits : List Char
  width : digits.length = 4 ∨ digits.length = 8
  value : Char
  number : hexVal digits = some value.toNat
  deriving DecidableEq

/-- What stands behind a backslash. -/
inductive Escape where
  | backspace
  | tab
  | lineFeed
  | formFeed
  | carriageReturn
  | quote
  | backslash
  | codePoint (p : CodePoint)
  deriving DecidableEq

def Escape.chars : Escape → List Char
  | .backspace => ['b']
  | .tab => ['t']
  | .lineFeed => ['n']
  | .formFeed => ['f']
  | .carriageReturn => ['r']
  | .quote => ['"']
  | .backslash => ['\\']
  | .codePoint p => (if p.digits.length = 4 then 'u' else 'U') :: p.digits

def Escape.value : Escape → Char
  | .backspace => '\x08'
  | .tab => '\t'
  | .lineFeed => '\n'
  | .formFeed => '\x0C'
  | .carriageReturn => '\r'
  | .quote => '"'
  | .backslash => '\\'
  | .codePoint p => p.value

/-- A piece of a basic string. -/
inductive Piece where
  | plain (c : Char) (h : isText c = true ∧ c ≠ '"' ∧ c ≠ '\\')
  | escape (e : Escape)
  deriving DecidableEq

def Piece.chars : Piece → List Char
  | .plain c _ => [c]
  | .escape e => '\\' :: e.chars

def Piece.value : Piece → Char
  | .plain c _ => c
  | .escape e => e.value

/-- A string on one line. -/
inductive Str where
  | basic (pieces : List Piece)
  | literal (body : List Char) (h : ∀ c ∈ body, isText c = true ∧ c ≠ '\'')
  deriving DecidableEq

def Str.chars : Str → List Char
  | .basic pieces => '"' :: (pieces.flatMap Piece.chars ++ ['"'])
  | .literal body _ => '\'' :: (body ++ ['\''])

def Str.value : Str → List Char
  | .basic pieces => pieces.map Piece.value
  | .literal body _ => body

/-- A character of a key without quotes. -/
def isBare (c : Char) : Bool := c.isAlphanum || c = '_' || c = '-'

/-- One name of a key. -/
inductive KeyPart where
  | bare (name : List Char) (h : name ≠ [] ∧ ∀ c ∈ name, isBare c = true)
  | quoted (s : Str)
  deriving DecidableEq

def KeyPart.chars : KeyPart → List Char
  | .bare name _ => name
  | .quoted s => s.chars

def KeyPart.name : KeyPart → List Char
  | .bare name _ => name
  | .quoted s => s.value

/-- A key: names with dots between them. -/
structure Key where
  head : KeyPart
  tail : List (Blank × Blank × KeyPart)
  deriving DecidableEq

def Key.chars (k : Key) : List Char :=
  k.head.chars ++ k.tail.flatMap fun (before, after, part) =>
    before.chars ++ '.' :: (after.chars ++ part.chars)

def Key.names (k : Key) : List (List Char) :=
  k.head.name :: k.tail.map fun (_, _, part) => part.name

/-- The name of a table, with the spaces around it. -/
structure Header where
  before : Blank
  key : Key
  after : Blank
  deriving DecidableEq

def Header.chars (h : Header) : List Char := h.before.chars ++ h.key.chars ++ h.after.chars

/-- A key with its value, and the spaces around the `=`. -/
structure Entry where
  key : Key
  before : Blank
  after : Blank
  value : Str
  deriving DecidableEq

/-- What a line holds besides a comment. -/
inductive Content where
  | nothing
  | table (h : Header)
  | tables (h : Header)
  | entry (e : Entry)
  deriving DecidableEq

/-- A line, with what is around its content. -/
structure Line where
  indent : Blank
  content : Content
  space : Blank
  comment : Option Comment
  deriving DecidableEq

def Content.chars : Content → List Char
  | .nothing => []
  | .table h => '[' :: (h.chars ++ [']'])
  | .tables h => '[' :: '[' :: (h.chars ++ [']', ']'])
  | .entry e => e.key.chars ++ e.before.chars ++ '=' :: (e.after.chars ++ e.value.chars)

/-- What stands behind the content of a line. -/
def Line.rest (l : Line) : List Char :=
  l.space.chars ++ match l.comment with
    | none => []
    | some c => '#' :: c.body

def Line.chars (l : Line) : List Char := l.indent.chars ++ (l.content.chars ++ l.rest)

/-- A document: lines that end in a break of either kind, and one that is not ended. -/
structure Document where
  lines : List (Line × Bool)
  last : Line
  deriving DecidableEq

def Document.chars (d : Document) : List Char :=
  (d.lines.flatMap fun (l, carriageReturn) =>
    l.chars ++ if carriageReturn then ['\r', '\n'] else ['\n']) ++ d.last.chars

def Document.text (d : Document) : String := String.ofList d.chars

def Document.all (d : Document) : List Line := d.lines.map (·.1) ++ [d.last]

/-! ## What a document says -/

def Line.isHeader (l : Line) : Bool :=
  match l.content with
  | .table _ | .tables _ => true
  | _ => false

/-- The line begins an array of tables. -/
def Line.isTables (l : Line) : Bool :=
  match l.content with
  | .tables _ => true
  | _ => false

/-- The line begins a table of the array `mods`. -/
def Line.isMods (l : Line) : Bool :=
  match l.content with
  | .tables h => h.key.names = ["mods".toList]
  | _ => false

def Line.entry? (l : Line) : Option Entry :=
  match l.content with
  | .entry e => some e
  | _ => none

/-- The entries of the first `[[mods]]` table. -/
def Document.modsTable (d : Document) : Option (List Entry) :=
  match d.all.dropWhile (!·.isMods) with
  | [] => none
  | _ :: lines => some ((lines.takeWhile (!·.isHeader)).filterMap Line.entry?)

/-- What a table gives for a key. -/
def given (table : List Entry) (key : String) : Option String :=
  (table.find? (·.key.names = [key.toList])).map fun e => String.ofList e.value.value

/-- What the first `[[mods]]` table says of its mod. -/
def declared (table : List Entry) (loader : String) : Option JarMeta :=
  (given table "modId").map fun id => {
    id := id
    name := (given table "displayName").getD id
    version := readVersion ((given table "version").getD "")
    loader := loader }

/-! ## What the code makes of the lines -/

/-- The line is read whole by the scanner. -/
def fits (l : Line × Bool) : Bool :=
  decide (byteLength l.1.chars + (if l.2 then 1 else 0) < maxScanTokenSize)

/-- The lines up to one that is too long. -/
def Document.scanned (d : Document) : List Line :=
  ((d.lines ++ [(d.last, false)]).takeWhile fits).map (·.1)

/-- The line is `[[mods]]`, with nothing but spaces around it. -/
def Line.isPlainMods (l : Line) : Bool := trim l.chars = "[[mods]]".toList

/-- The lines the code takes for those of a mod: from the first plain `[[mods]]` on, up to an array
of tables that does not begin so. -/
def Document.section (d : Document) : List Line :=
  match d.scanned.dropWhile (!·.isPlainMods) with
  | [] => []
  | _ :: lines => lines.takeWhile fun l => l.isPlainMods || !l.isTables

/-- The line has an entry with this key, written without quotes. -/
def Line.writes (key : String) (l : Line) : Bool :=
  match l.content with
  | .entry e => e.key.chars = key.toList
  | _ => false

/-- What stands behind the `=` of a line, without spaces and double quotes around it. -/
def Line.shown (l : Line) : String :=
  match l.content with
  | .entry e => String.ofList (trimWith (· = '"') (trim (e.after.chars ++ e.value.chars ++ l.rest)))
  | _ => ""

/-- What the last of these lines that writes a key shows for it. -/
def shown (lines : List Line) (key : String) : String :=
  ((lines.filter (Line.writes key)).getLast?.map Line.shown).getD ""

end Konnekt.ModsToml
