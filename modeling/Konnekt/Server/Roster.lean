import Konnekt.Server.Lifecycle

/-!
# The roster

What the console lines of a boot say about its players, and what the roster and the
events of the instance make of it.
-/

namespace Konnekt.Server

open Go

/-- `Player`, as the roster of an instance fills it. -/
structure Player where
  name : String
  uuid : String
  ip : String
  online : Bool
  deriving DecidableEq, Repr

/-- `GetActivePlayers`. -/
def Instance.getActivePlayers (s : Instance) : List Player :=
  s.players.entries.map fun e => ⟨e.1, e.2.uuid, e.2.ip, true⟩

/-- The read loop over so many lines, each at its time. -/
def readLines (parseIP : String → Option String) (lines : List (Int × String)) (s : Instance) :
    Instance :=
  lines.foldl (fun s e => processLine parseIP e.1 e.2 s) s

/-! ## What the lines say -/

/-- A line of the console about a player. -/
inductive PlayerLine where
  | uuid (name uuid : String)
  | login (name addr : String)
  | join (name : String)
  | leave (name : String)
  | lost (name : String)
  deriving DecidableEq, Repr

/-- The line that a message is: the matchers are tried in this order. -/
def playerLine (msg : List Char) : Option PlayerLine :=
  match rePlayerUUID msg with
  | some (name, uuid) => some (.uuid name uuid)
  | none => match rePlayerLogin msg with
    | some (name, addr) => some (.login name addr)
    | none => match rePlayerJoin msg with
      | some name => some (.join name)
      | none => match rePlayerLeave msg with
        | some name => some (.leave name)
        | none => (rePlayerLost msg).map .lost

/-- The lines about players among these. -/
def playerLines (lines : List (Int × String)) : List PlayerLine :=
  lines.filterMap fun e => playerLine (logMessage e.2)

namespace PlayerLine

/-- The player has gone. -/
def ends (name : String) : PlayerLine → Bool
  | .leave n | .lost n => n == name
  | _ => false

/-- The UUID a line gives a player. -/
def uuidOf (name : String) : PlayerLine → Option String
  | .uuid n id => if n = name then some id else none
  | _ => none

/-- What a login line gives as the address of a player, nothing where it does not parse. -/
def loginOf (parseIP : String → Option String) (name : String) : PlayerLine → Option String
  | .login n addr => if n = name then some (parseLoginAddress parseIP addr) else none
  | _ => none

/-- The address of a player on a login line whose address parses. -/
def ipOf (parseIP : String → Option String) (name : String) (line : PlayerLine) : Option String :=
  (line.loginOf parseIP name).filter (· ≠ "")

/-- The lines since a player was last gone, the latest first. -/
def sinceLeave (name : String) (lines : List PlayerLine) : List PlayerLine :=
  lines.reverse.takeWhile fun line => !line.ends name

/-- What the latest of these lines says that says something. -/
def latest (tells : PlayerLine → Option String) (name : String) (lines : List PlayerLine) : String :=
  ((sinceLeave name lines).findSome? tells).getD ""

end PlayerLine

/-! ## The events of a player -/

/-- What an event says about a player. -/
inductive Move where
  | joined | left
  deriving DecidableEq, Repr

def moveOf (name : String) : Event → Option Move
  | .playerJoined n _ => if n = name then some .joined else none
  | .playerLeft n => if n = name then some .left else none
  | _ => none

/-- The moves of a player among these events. -/
def moves (name : String) (events : List Event) : List Move := events.filterMap (moveOf name)

/-- A player joins first and then joins and leaves in turn. -/
def Alternate (moves : List Move) : Prop := moves.IsChain (· ≠ ·) ∧ moves.head? ≠ some .left

end Konnekt.Server
