import Konnekt.Commands.Links
import Konnekt.Go.Text
import Konnekt.Worlds.Operations

/-!
# The shared file of Kommands

`KommandsService` reads the commands that were linked in Kommands and never writes them.
Its poll compares the time and the size of the file with those it remembers, and brings
the linked buttons in step with a file that differs.
-/

namespace Konnekt.Commands

open Go

def kommandsSavedFile : String := "saved-commands.json"

/-! ## Bounds on what the file may contain -/

def kommandsMaxBytes : Nat := 2 <<< 20

def kommandsMaxCommands : Nat := 2000

def kommandsMaxCmdLen : Nat := 512

/-- The only version this build understands. -/
def kommandsSchemaVersion : Int := 1

/-! ## The file -/

structure KommandsFile where
  version : Int := 0
  commands : List KommandsSavedCommand := []
  deriving DecidableEq, Repr

/-- What `os.Stat` tells of the file. -/
structure FileInfo where
  modTime : Int
  size : Nat
  deriving DecidableEq, Repr

/-- The shared file, with what its bytes decode to. -/
structure SharedFile where
  info : FileInfo
  data : Except String KommandsFile

/-- `hasControlChar`. -/
def hasControlChar (s : String) : Bool :=
  s.toList.any fun r => r = '\n' || r = '\r' || Worlds.isControl r

/-- The text that is run for the command of an entry: one leading slash is stripped. -/
def commandText (command : String) : String := trimPrefix (trimSpace command) "/"

/-- Whether an entry has a text that may be handed to a server. -/
def Sendable (cmd : String) : Prop :=
  cmd ≠ "" ∧ cmd.utf8ByteSize ≤ kommandsMaxCmdLen ∧ hasControlChar cmd = false

instance (cmd : String) : Decidable (Sendable cmd) := inferInstanceAs (Decidable (_ ∧ _ ∧ _))

/-- The label and command of an entry as they are kept; an empty label falls back to the
command. -/
def cleanText (text : String × String) : String × String :=
  (if text.1 = "" then commandText text.2 else text.1, commandText text.2)

/-- An entry as it is kept. -/
def cleaned (c : KommandsSavedCommand) : KommandsSavedCommand :=
  { c with label := (cleanText (c.label, c.command)).1
           command := (cleanText (c.label, c.command)).2 }

/-- The loop of `sanitizeSaved`: what is kept of the rest, and how many entries are rejected. -/
def sanitizeFrom (seen : List String) :
    List KommandsSavedCommand → List KommandsSavedCommand × Nat
  | [] => ([], 0)
  | c :: cs =>
    if c.id = "" ∨ c.id ∈ seen then
      let (kept, rejected) := sanitizeFrom seen cs
      (kept, rejected + 1)
    else if Sendable (commandText c.command) then
      let (kept, rejected) := sanitizeFrom (c.id :: seen) cs
      (cleaned c :: kept, rejected)
    else
      let (kept, rejected) := sanitizeFrom seen cs
      (kept, rejected + 1)

/-- `sanitizeSaved`. -/
def sanitizeSaved (cs : List KommandsSavedCommand) : List KommandsSavedCommand × Nat :=
  sanitizeFrom [] cs

/-! ## The service -/

/-- `KommandsStatus`, without the counts that `Status` adds. -/
structure KommandsStatus where
  installed : Bool := false
  path : String
  unsupported : Bool := false
  version : Int := 0
  error : String := ""
  savedCount : Nat := 0
  rejected : Nat := 0
  deriving DecidableEq, Repr

/-- The time and size last remembered are there when `seen` is set. -/
structure KommandsService where
  path : String
  last : Option FileInfo := none
  status : KommandsStatus := { path := path }
  saved : List KommandsSavedCommand := []
  deriving DecidableEq, Repr

/-- Where a call of `Poll(false)` is between two of its steps. -/
inductive Phase where
  | found (info : FileInfo)
  | parsing (info : FileInfo) (data : Except String KommandsFile)
  | syncing (kept : List KommandsSavedCommand)
  | absent

/-- What a step of a poll comes to. -/
inductive Outcome where
  | goesOn (phase : Phase)
  | returned (err : Option String)

namespace KommandsService

def setStatus (status : KommandsStatus) (s : KommandsService) : KommandsService :=
  { s with status := status }

def rememberStat (info : FileInfo) (s : KommandsService) : KommandsService :=
  { s with last := some info }

/-- The first step: the file is looked at, and left unread when it is as remembered. -/
def stat (found : Except String (Option FileInfo)) (s : KommandsService) :
    Outcome × KommandsService :=
  match found with
  | .error error => (.returned (some error), s.setStatus { path := s.path, error := error })
  | .ok none =>
    (.goesOn .absent, { s.setStatus { path := s.path } with last := none, saved := [] })
  | .ok (some info) =>
    if s.last = some info then (.returned none, s)
    else if kommandsMaxBytes < info.size then
      let error := kommandsSavedFile ++ " is larger than " ++ toString kommandsMaxBytes ++ " bytes"
      (.returned none,
        (s.rememberStat info).setStatus { path := s.path, installed := true, error := error })
    else (.goesOn (.found info), s)

/-- The second step: `os.ReadFile`. -/
def read (info : FileInfo) (data : Except String (Except String KommandsFile))
    (s : KommandsService) : Outcome × KommandsService :=
  match data with
  | .error error =>
    (.returned (some error),
      s.setStatus { path := s.path, installed := true, error := error })
  | .ok data => (.goesOn (.parsing info data), s)

/-- The third step: the time and size are remembered, also of a file that is not understood. -/
def remember (info : FileInfo) (data : Except String KommandsFile) (s : KommandsService) :
    Outcome × KommandsService :=
  match data with
  | .error error =>
    (.returned none, (s.rememberStat info).setStatus
      { path := s.path, installed := true,
        error := "parse " ++ kommandsSavedFile ++ ": " ++ error })
  | .ok file =>
    if file.version ≠ kommandsSchemaVersion then
      (.returned none, (s.rememberStat info).setStatus
        { path := s.path, installed := true, unsupported := true, version := file.version })
    else
      let (kept, rejected) := sanitizeSaved (file.commands.take kommandsMaxCommands)
      (.goesOn (.syncing kept),
        { (s.rememberStat info).setStatus
            { path := s.path, installed := true, version := file.version,
              savedCount := kept.length, rejected := rejected } with
          saved := kept })

end KommandsService

end Konnekt.Commands
