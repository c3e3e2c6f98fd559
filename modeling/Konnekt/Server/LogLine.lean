import Konnekt.Go.Scanner
import Konnekt.Go.Text

/-!
# Console lines

What a server says on its console, as the matchers of the read loop see it. All
but two of them look at the message behind the log prefix and are anchored at its
start; the two others look for their text anywhere in the whole line.
-/

namespace Konnekt.Server

open Go

/-! ## Splitting console output

The split function of the console's scanner. It delivers an overlong line cut at the size
of the buffer, discards the excess, and takes `\n`, `\r\n` and a lone `\r` as line breaks
wherever the reads fall. -/

def lf : UInt8 := 10

def cr : UInt8 := 13

def isBreak (b : UInt8) : Bool := b == lf || b == cr

/-- What the closure of `newConsoleSplitFunc` keeps: whether it discards the excess of an overlong
line, and whether a `\r` ended the previous data. -/
structure ConsoleSplit where
  dropping : Bool := false
  skipNextLF : Bool := false
  deriving DecidableEq, Repr

def newConsoleSplitFunc (maxLine : Nat) : SplitFunc ConsoleSplit UInt8 := fun s data atEOF =>
  if data = [] then ((0, none), s)
  else if s.skipNextLF ∧ data.head? = some lf then ((1, none), { s with skipNextLF := false })
  else
    let i := (data.takeWhile fun b => !isBreak b).length
    match data.drop i with
    | b :: after =>
      let advance := if b = cr ∧ after.head? = some lf then i + 2 else i + 1
      -- A \r at the end of the data is consumed now; its \n may come with the next read.
      let skip := b == cr && after.isEmpty
      if s.dropping then ((advance, none), ⟨false, skip⟩)
      else ((advance, some (data.take i)), ⟨false, skip⟩)
    | [] =>
      if maxLine ≤ data.length then
        if s.dropping then ((maxLine, none), ⟨true, false⟩)
        else ((maxLine, some (data.take maxLine)), ⟨true, false⟩)
      else if atEOF then
        if s.dropping then ((data.length, none), ⟨true, false⟩)
        else ((data.length, some data), ⟨false, false⟩)
      else ((0, none), ⟨s.dropping, false⟩)

/-- What `streamOutput` reads of a stream, whose reads deliver so many bytes. -/
def streamLines (maxLine : Nat) (sizes : Nat → Nat) (stream : List UInt8) :
    List (List UInt8) × Option Scanner.Stop :=
  Scanner.scan maxLine sizes (newConsoleSplitFunc maxLine) (2 * stream.length + 2)
    { split := {}, rest := stream }

/-! ## Lines -/

/-- The lines of a stream behind the part of a line already seen. -/
def linesFrom (seen : List UInt8) : List UInt8 → List (List UInt8)
  | [] => if seen = [] then [] else [seen]
  | [b] => if isBreak b then [seen] else [seen ++ [b]]
  | b :: c :: s =>
    if b = cr ∧ c = lf then seen :: linesFrom [] s
    else if isBreak b then seen :: linesFrom [] (c :: s)
    else linesFrom (seen ++ [b]) (c :: s)

/-- The lines of a stream: `\n`, `\r\n` and a lone `\r` each end one. -/
def consoleLines (stream : List UInt8) : List (List UInt8) := linesFrom [] stream

example : consoleLines [97, 13, 10, 10, 98, 13, 99] = [[97], [], [98], [99]] := by decide

/-! ## The message of a line -/

/-- The text behind the first occurrence of a mark. -/
def afterMark (mark : List Char) : List Char → Option (List Char)
  | [] => if mark = [] then some [] else none
  | c :: s =>
    if mark.isPrefixOf (c :: s) then some ((c :: s).drop mark.length) else afterMark mark s

/-- `logMessage`: what follows the log prefix, nothing for a line without one. -/
def logMessage (line : String) : List Char := (afterMark "]: ".toList line.toList).getD []

/-! ## The matchers -/

/-- `[\w.]`, the characters of a player name. -/
def isPlayerChar (c : Char) : Bool := c.isAlphanum || c == '_' || c == '.'

/-- `\S` of the pattern language. -/
def isVisible (c : Char) : Bool :=
  !(c == ' ' || c == '\t' || c == '\n' || c == '\r' || c == Char.ofNat 12)

/-- `[0-9a-f-]`. -/
def isUUIDChar (c : Char) : Bool := c.isDigit || ('a' ≤ c && c ≤ 'f') || c == '-'

/-- `[0-9.,]`. -/
def isSecondsChar (c : Char) : Bool := c.isDigit || c == '.' || c == ','

/-- The text behind a fixed beginning. -/
def cutText (text : String) (msg : List Char) : Option (List Char) :=
  if text.toList.isPrefixOf msg then some (msg.drop text.length) else none

/-- `rePlayerName` at the start of a message, and the text behind it. -/
def takePlayer (msg : List Char) : Option (String × List Char) :=
  match msg.takeWhile isPlayerChar with
  | [] => none
  | name => some (String.ofList name, msg.dropWhile isPlayerChar)

/-- A player name and then a fixed text. -/
def playerPhrase (text : String) (msg : List Char) : Option String := do
  let (name, rest) ← takePlayer msg
  let _ ← cutText text rest
  return name

def rePlayerJoin : List Char → Option String := playerPhrase " joined the game"

def rePlayerLeave : List Char → Option String := playerPhrase " left the game"

def rePlayerLost : List Char → Option String := playerPhrase " lost connection:"

/-- `rePlayerUUID`: the name and the 36 characters of the id. -/
def rePlayerUUID (msg : List Char) : Option (String × String) := do
  let rest ← cutText "UUID of player " msg
  let (name, rest) ← takePlayer rest
  let rest ← cutText " is " rest
  let uuid := rest.take 36
  if uuid.length = 36 ∧ uuid.all isUUIDChar = true then return (name, String.ofList uuid) else none

/-- `rePlayerLogin`: the name and the address. The address has no space, so the bracket that
closes it is the last character before one. -/
def rePlayerLogin (msg : List Char) : Option (String × String) := do
  let (name, rest) ← takePlayer msg
  let rest ← cutText "[/" rest
  let word := rest.takeWhile isVisible
  let _ ← cutText " logged in" (rest.dropWhile isVisible)
  if word.getLast? = some ']' ∧ word.dropLast ≠ [] then
    return (name, String.ofList word.dropLast)
  else none

/-- Characters equal but for letter case; besides the capital, `s` has the long s. -/
def foldsTo (p c : Char) : Bool := lower c == lower p || (lower p == 's' && c == Char.ofNat 0x17F)

/-- A fixed beginning in any letter case. -/
def startsWithFold : List Char → List Char → Bool
  | [], _ => true
  | _ :: _, [] => false
  | p :: ps, c :: cs => foldsTo p c && startsWithFold ps cs

def reServerStop (msg : List Char) : Bool := startsWithFold "Stopping the server".toList msg

def reServerCrash (msg : List Char) : Bool :=
  ["Encountered an unexpected exception", "This crash report has been saved to:",
    "We were unable to save this crash report to disk"].any fun text => (cutText text msg).isSome

def reWorldsSaved (msg : List Char) : Bool :=
  msg == "ThreadedAnvilChunkStorage: All dimensions are saved".toList

def reServerReady (msg : List Char) : Bool :=
  match cutText "Done (" msg with
  | none => false
  | some rest => !(rest.takeWhile isSecondsChar).isEmpty &&
      (cutText "s)!" (rest.dropWhile isSecondsChar)).isSome

/-- `strings.Contains`. -/
def containsText (text : String) (s : List Char) : Bool := decide (text.toList <:+: s)

/-- A line that mentions `eula.txt`, in any letter case. -/
def mentionsEula (line : String) : Bool := containsText "eula.txt" (line.toList.map lower)

def cannotKeepUp (line : String) : Bool := containsText "Can't keep up" line.toList

/-- `parseLoginAddress`: the address in front of the last colon, if it is one. `parseIP` is
`net.ParseIP` followed by `IP.String`. -/
def parseLoginAddress (parseIP : String → Option String) (addr : String) : String :=
  let cs := addr.toList
  let host := match (cs.reverse.dropWhile (· ≠ ':')) with
    | [] => cs
    | _ :: before => before.reverse
  let host := match host with
    | '[' :: rest => rest
    | _ => host
  let host := if host.getLast? = some ']' then host.dropLast else host
  (parseIP (String.ofList host)).getD ""

/-! ## Chat -/

/-- A message `<name> text`, as players' chat appears. -/
def IsChat (msg : List Char) : Prop := ∃ name text : List Char, msg = '<' :: name ++ '>' :: ' ' :: text

/-- No fixed beginning of a server's own message is one of a chat message. -/
theorem cutText_chat {text : String} {msg : List Char} (h : IsChat msg)
    (hhead : text.toList.head? ≠ some '<') (hne : text.toList ≠ []) : cutText text msg = none := by
  obtain ⟨name, body, rfl⟩ := h
  cases htext : text.toList with
  | nil => exact absurd htext hne
  | cons c cs =>
    rw [htext] at hhead
    have hc : c ≠ '<' := fun heq => hhead (by rw [heq]; rfl)
    simp [cutText, htext, hc]

/-- A chat message does not begin with a player name. -/
theorem takePlayer_chat {msg : List Char} (h : IsChat msg) : takePlayer msg = none := by
  obtain ⟨name, body, rfl⟩ := h
  rfl

theorem reServerStop_chat {msg : List Char} (h : IsChat msg) : reServerStop msg = false := by
  obtain ⟨name, body, rfl⟩ := h
  rfl

theorem reServerCrash_chat {msg : List Char} (h : IsChat msg) : reServerCrash msg = false := by
  obtain ⟨name, body, rfl⟩ := h
  rfl

theorem reWorldsSaved_chat {msg : List Char} (h : IsChat msg) : reWorldsSaved msg = false := by
  obtain ⟨name, body, rfl⟩ := h
  rfl

theorem reServerReady_chat {msg : List Char} (h : IsChat msg) : reServerReady msg = false := by
  rw [reServerReady, cutText_chat h (by decide) (by decide)]

end Konnekt.Server
