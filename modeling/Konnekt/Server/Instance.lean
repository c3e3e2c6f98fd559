import Konnekt.Go.Map
import Konnekt.Server.LogLine

/-!
# A server instance

The runtime of one configured server: its lifecycle, its console and its roster.
Everything that happens to it happens in sections that hold one of its locks; a
section of the read loop says which sections come next and which routines it
starts.
-/

namespace Konnekt.Server

open Go

/-- `serverState`. -/
inductive ServerState where
  | offline | starting | running | stopping
  deriving DecidableEq, Repr

/-- `playerSession`. -/
structure PlayerSession where
  uuid : String := ""
  ip : String := ""
  deriving DecidableEq, Repr

/-- `ServerStopped`. -/
structure ServerStopped where
  expected : Bool
  exitCode : Int
  deriving DecidableEq, Repr

/-- `ConsoleLine`; source and outcome are empty for a line of server output. -/
structure ConsoleLine where
  timestamp : Int
  line : String
  source : String
  outcome : String
  deriving DecidableEq, Repr

/-- The events of an instance; each carries the id of its server. -/
inductive Event where
  | logLine (line : ConsoleLine)
  | eulaRequired
  | serverStarted
  | serverState (state : ServerState) (timedOut : Bool)
  | serverStopped (stop : ServerStopped)
  | playerJoined (name ip : String)
  | playerLeft (name : String)
  deriving DecidableEq, Repr

/-- `serverInstance`. The channel of a boot is a number, and `exited` that of the last one made. -/
structure Instance where
  id : String
  running : Bool := false
  exited : Nat := 0
  state : ServerState := .offline
  expectedStop : Bool := false
  crashed : Bool := false
  deadlineArmed : Bool := false
  /-- The pipe to the process is open. -/
  stdin : Bool := false
  lastStop : ServerStopped := ⟨false, 0⟩
  players : GoMap PlayerSession := ∅
  /-- What lines before a join have said about a player. -/
  presession : GoMap PlayerSession := ∅
  currentTPS : Float64 := .fin (-1)
  tpsLastUpdate : Option Int := none
  tpsLost : Bool := false
  logTPS : Float64 := .fin (-1)
  logLastWarning : Option Int := none
  logBuf : List ConsoleLine := []
  events : List Event := []

def consoleCap : Nat := 2000

namespace Instance

/-! ## The lifecycle -/

/-- `setStateLocked`: an event goes out on an actual change only. -/
def setStateLocked (next : ServerState) (timedOut : Bool) (s : Instance) : Instance :=
  if s.state = next then s
  else { s with state := next, events := s.events ++ [.serverState next timedOut] }

/-- `enterRunningLocked`, without the poller it starts. -/
def enterRunningLocked (timedOut : Bool) (s : Instance) : Instance :=
  s.setStateLocked .running timedOut

/-- The state writes that `starting` and `running` allow. -/
def stopFromUp (s : Instance) : Instance :=
  if s.state = .starting ∨ s.state = .running then s.setStateLocked .stopping false else s

section

variable (next : ServerState) (timedOut : Bool) (s : Instance)

@[simp] theorem setStateLocked_state : (s.setStateLocked next timedOut).state = next := by
  unfold setStateLocked
  split
  · assumption
  · rfl

/-- Apart from the state and the events, nothing moves with the state. -/
theorem setStateLocked_eq :
    ∃ events, s.setStateLocked next timedOut = { s with state := next, events := events } := by
  unfold setStateLocked
  split
  · exact ⟨s.events, by subst next; rfl⟩
  · exact ⟨_, rfl⟩

@[simp] theorem setStateLocked_running : (s.setStateLocked next timedOut).running = s.running := by
  obtain ⟨events, h⟩ := setStateLocked_eq next timedOut s
  rw [h]

@[simp] theorem setStateLocked_exited : (s.setStateLocked next timedOut).exited = s.exited := by
  obtain ⟨events, h⟩ := setStateLocked_eq next timedOut s
  rw [h]

@[simp] theorem setStateLocked_expectedStop :
    (s.setStateLocked next timedOut).expectedStop = s.expectedStop := by
  obtain ⟨events, h⟩ := setStateLocked_eq next timedOut s
  rw [h]

@[simp] theorem setStateLocked_crashed : (s.setStateLocked next timedOut).crashed = s.crashed := by
  obtain ⟨events, h⟩ := setStateLocked_eq next timedOut s
  rw [h]

@[simp] theorem setStateLocked_deadlineArmed :
    (s.setStateLocked next timedOut).deadlineArmed = s.deadlineArmed := by
  obtain ⟨events, h⟩ := setStateLocked_eq next timedOut s
  rw [h]

@[simp] theorem setStateLocked_players : (s.setStateLocked next timedOut).players = s.players := by
  obtain ⟨events, h⟩ := setStateLocked_eq next timedOut s
  rw [h]

@[simp] theorem setStateLocked_presession :
    (s.setStateLocked next timedOut).presession = s.presession := by
  obtain ⟨events, h⟩ := setStateLocked_eq next timedOut s
  rw [h]

end

/-! ## The console -/

/-- `emitConsoleLineTagged`. -/
def emitConsoleLineTagged (now : Int) (line source outcome : String) (s : Instance) : Instance :=
  let entry : ConsoleLine := ⟨now, line, source, outcome⟩
  let ring := if consoleCap ≤ s.logBuf.length then s.logBuf.tail else s.logBuf
  { s with events := s.events ++ [.logLine entry], logBuf := ring ++ [entry] }

/-- `emitConsoleLine`: a line of server output. -/
def emitConsoleLine (now : Int) (line : String) (s : Instance) : Instance :=
  s.emitConsoleLineTagged now line "" ""

def narrate (now : Int) (outcome line : String) (s : Instance) : Instance :=
  s.emitConsoleLineTagged now line "manager" outcome

/-! ## The roster -/

/-- `recordPlayerField`: on the live session of a player who is online, else before the join. -/
def recordPlayerField (name : String) (set : PlayerSession → PlayerSession) (s : Instance) :
    Instance :=
  match s.players.lookup name with
  | some sess => { s with players := s.players.insert name (set sess) }
  | none => { s with presession := s.presession.insert name (set ((s.presession.lookup name).getD {})) }

/-- The session of a player after a join line. -/
def promoted (s : Instance) (name : String) : PlayerSession :=
  let sess := (s.players.lookup name).getD {}
  let pre := (s.presession.lookup name).getD {}
  { uuid := if sess.uuid = "" then pre.uuid else sess.uuid
    ip := if sess.ip = "" then pre.ip else sess.ip }

/-- `promotePlayer`, and the event of a player who was not online. -/
def promotePlayer (name : String) (s : Instance) : Instance :=
  let sess := s.promoted name
  { s with
    players := s.players.insert name sess
    presession := s.presession.erase name
    events := if (s.players.lookup name).isSome then s.events
      else s.events ++ [.playerJoined name sess.ip] }

/-- `removePlayer`, and the event of a player who was online. -/
def removePlayer (name : String) (s : Instance) : Instance :=
  { s with
    players := s.players.erase name
    presession := s.presession.erase name
    events := if (s.players.lookup name).isSome then s.events ++ [.playerLeft name] else s.events }

/-! ## Ticks per second -/

/-- `stopTPSPoll`. -/
def stopTPSPoll (s : Instance) : Instance :=
  { s with currentTPS := .fin (-1), tpsLastUpdate := none, tpsLost := false,
           logTPS := .fin (-1), logLastWarning := none }

/-- `currentLogTPS`: a warning wears off over a minute. -/
def currentLogTPS (now : Int) (s : Instance) : Float64 :=
  if s.logTPS.lt 0 then .fin (-1)
  else match s.logLastWarning with
    | none => s.logTPS
    | some warned =>
      let elapsed : ℚ := (now - warned : Int) / 1000000000
      if 60 ≤ elapsed then 20
      else s.logTPS.add ((Float64.sub 20 s.logTPS).mul (.fin (elapsed / 60)))

/-- `CurrentTPS`: an RCON answer of the last 15 seconds, or else what the log says. -/
def estimatedTPS (now : Int) (s : Instance) : Float64 :=
  if s.tpsLost then .fin (-1)
  else match s.tpsLastUpdate with
    | some updated =>
      if s.currentTPS.lt 0 = false ∧ now - updated < 15000000000 then s.currentTPS
      else s.currentLogTPS now
    | none => s.currentLogTPS now

end Instance

/-! ## The read loop -/

/-- A section of `streamOutput`, or of what it calls. -/
inductive Section where
  | console (line : String)
  | eulaRequired
  | serverStop
  | serverCrash
  | tpsLost
  | narrateFailed (line : String)
  | armExitDeadline
  | serverReady
  | playerUUID (name uuid : String)
  | playerIP (name ip : String)
  | playerJoined (name : String)
  | playerLeft (name : String)
  | cannotKeepUp
  deriving DecidableEq, Repr

/-- The sections about players: one of five matchers, in this order. -/
def playerSections (parseIP : String → Option String) (msg : List Char) : List Section :=
  match rePlayerUUID msg with
  | some (name, uuid) => [.playerUUID name uuid]
  | none => match rePlayerLogin msg with
    | some (name, addr) =>
      let ip := parseLoginAddress parseIP addr
      (if ip = "" then [] else [.playerIP name ip]) ++ [.playerJoined name]
    | none => match rePlayerJoin msg with
      | some name => [.playerJoined name]
      | none => match rePlayerLeave msg with
        | some name => [.playerLeft name]
        | none => match rePlayerLost msg with
          | some name => [.playerLeft name]
          | none => []

/-- The sections of one line that has been stripped of escape sequences. -/
def lineSections (parseIP : String → Option String) (line : String) : List Section :=
  let msg := logMessage line
  [.console line] ++
    (if mentionsEula line then [.eulaRequired] else []) ++
    (if reServerStop msg then [.serverStop] else []) ++
    (if reServerCrash msg then [.serverCrash] else []) ++
    (if reWorldsSaved msg then [.armExitDeadline] else []) ++
    (if reServerReady msg then [.serverReady] else []) ++
    playerSections parseIP msg ++
    (if cannotKeepUp line then [.cannotKeepUp] else [])

/-- What `NarrateFailed` says on the first line of a crash. -/
def crashNarration : String :=
  "Server crashed; its process is ended in 30s unless it exits first, or in 10s if you stop it"

/-- The deadline of a boot may be armed: it is shutting down and has none yet. -/
def Instance.armable (s : Instance) : Bool :=
  s.running && s.state == .stopping && !s.deadlineArmed

/-- The effect of a section, and the sections it calls before the next one of its line. -/
def Section.run (now : Int) (s : Instance) : Section → Instance × List Section
  | .console line => (s.emitConsoleLine now line, [])
  | .eulaRequired => ({ s with events := s.events ++ [.eulaRequired] }, [])
  | .serverStop => ({ s with expectedStop := true }.stopFromUp, [])
  | .serverCrash =>
    ({ s with crashed := true }.stopFromUp,
      if s.crashed then [] else [.tpsLost, .narrateFailed crashNarration, .armExitDeadline])
  | .tpsLost => ({ s with tpsLost := true }, [])
  | .narrateFailed line => (s.narrate now "failed" line, [])
  | .armExitDeadline => (if s.armable then { s with deadlineArmed := true } else s, [])
  | .serverReady => (if s.state = .starting then s.enterRunningLocked false else s, [])
  | .playerUUID name uuid => (s.recordPlayerField name fun sess => { sess with uuid := uuid }, [])
  | .playerIP name ip => (s.recordPlayerField name fun sess => { sess with ip := ip }, [])
  | .playerJoined name => (s.promotePlayer name, [])
  | .playerLeft name => (s.removePlayer name, [])
  | .cannotKeepUp => ({ s with logTPS := 10, logLastWarning := some now }, [])

/-- Sections run without a break; none calls more than one level deep. -/
def runSections (now : Int) (s : Instance) (todo : List Section) : Instance :=
  todo.foldl (fun s sec =>
    let (s, called) := sec.run now s
    called.foldl (fun s sec => (sec.run now s).1) s) s

/-- One line of the read loop, with nothing happening in between. -/
def processLine (parseIP : String → Option String) (now : Int) (line : String) (s : Instance) :
    Instance :=
  runSections now s (lineSections parseIP line)

end Konnekt.Server
