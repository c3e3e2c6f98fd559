import Konnekt.Go.Resolve
import Konnekt.Server.Launch
import Konnekt.Worlds.Operations

/-!
# The text of a properties file

`server.properties` is read and rewritten line by line. A scanner of limited lines takes
the text apart, without the `\r` in front of a line break, and a write goes through a
temporary file that is renamed over the old one.
-/

namespace Konnekt.Server

open Go

/-! ## Lines -/

/-- How many bytes some characters take. -/
def byteLength (cs : List Char) : Nat := (cs.map Char.utf8Size).sum

/-- `dropCR`. -/
def dropCR (line : List Char) : List Char :=
  if line.getLast? = some '\r' then line.dropLast else line

/-- `bufio.ScanLines` behind the part of a line that has been read: the lines, and whether the scan
stops at one that does not fit into the buffer. -/
def scanFrom (line : List Char) : List Char → List (List Char) × Bool
  | [] =>
    if line = [] then ([], false)
    else if maxScanTokenSize ≤ byteLength line then ([], true)
    else ([dropCR line], false)
  | c :: s =>
    if c = '\n' then
      if maxScanTokenSize ≤ byteLength line then ([], true)
      else (dropCR line :: (scanFrom [] s).1, (scanFrom [] s).2)
    else scanFrom (line ++ [c]) s

/-- The lines of a text, and the scanner's error. -/
def scanProperties (text : String) : List String × Option String :=
  ((scanFrom [] text.toList).1.map String.ofList,
    if (scanFrom [] text.toList).2 then some "bufio.Scanner: token too long" else none)

/-- `strings.Join` with line breaks, and one at the end. -/
def joinLines (lines : List String) : String := "\n".intercalate lines ++ "\n"

/-! ## Reading -/

/-- `parseProperties`: what was read, and the scanner's error. -/
def parseProperties (text : String) : GoMap String × Option String :=
  (GoMap.ofList ((scanProperties text).1.filterMap Worlds.propertyOf), (scanProperties text).2)

/-- `readProperties` of a file that can be opened. -/
def readProperties : Option String → GoMap String × Option String
  | none => (∅, none)
  | some text => parseProperties text

/-! ## Writing -/

/-- The steps of `writeFileAtomic`. -/
inductive WriteStep where
  | stat | create | write | sync | close | chmod | rename
  deriving DecidableEq, Repr

/-- A step that fails, and what is left in the temporary file if it cannot be removed. -/
structure WriteFault where
  step : WriteStep
  err : String
  left : Option String
  deriving DecidableEq, Repr

/-- A file, and a temporary one left beside it. -/
structure AtomicFile where
  content : Option String
  temp : Option String
  deriving DecidableEq, Repr

/-- What a failed step is reported as. -/
def WriteFault.text (path tmp : String) (fault : WriteFault) : String :=
  match fault.step with
  | .stat => "stat " ++ path ++ ": " ++ fault.err
  | .create => "create temp file in " ++ Path.dir path ++ ": " ++ fault.err
  | .write => "write " ++ tmp ++ ": " ++ fault.err
  | .sync => "sync " ++ tmp ++ ": " ++ fault.err
  | .close => "close " ++ tmp ++ ": " ++ fault.err
  | .chmod => "chmod " ++ tmp ++ ": " ++ fault.err
  | .rename => "rename " ++ tmp ++ " over " ++ path ++ ": " ++ fault.err

/-- `writeFileAtomic`: the data is under the path once the last step is done, and not before. -/
def writeFileAtomic (fault : Option WriteFault) (path tmp data : String) (f : AtomicFile) :
    Except String Unit × AtomicFile :=
  match fault with
  | none => (.ok (), { f with content := some data })
  | some fault =>
    (.error (fault.text path tmp),
      if fault.step = .stat ∨ fault.step = .create then f
      else { f with temp := fault.left.or f.temp })

/-- What may fail while a property is written. -/
structure PropertyFaults where
  opening : Option String := none
  reading : Option String := none
  writing : Option WriteFault := none

/-- `writeProperty`. -/
def writeProperty (fault : PropertyFaults) (path tmp key value : String) (f : AtomicFile) :
    Except String Unit × AtomicFile :=
  if Worlds.hasLineBreak key || Worlds.hasLineBreak value then
    (.error "property value must be a single line", f)
  else
    match fault.opening with
    | some err => (.error err, f)
    | none =>
      match f.content with
      | none =>
        writeFileAtomic fault.writing path tmp (joinLines (Worlds.setProperty key value [])) f
      | some text =>
        match fault.reading.or (scanProperties text).2 with
        | some err => (.error err, f)
        | none =>
          writeFileAtomic fault.writing path tmp
            (joinLines (Worlds.setProperty key value (scanProperties text).1)) f

end Konnekt.Server
