import Konnekt.Run.Threads
import Konnekt.Server.Instance

/-!
# The life of an instance

What the routines of an instance do to it, one locked section at a time: starting
and stopping it, reading the two output streams of a boot, recording the exit of
its process, and two watchdogs. A routine keeps the boot that started it, but not
all of them ask whether it is still the current one.
-/

namespace Konnekt.Server

open Go Threads

/-! ## Starting and stopping -/

/-- How far a start gets: no command, no pipe to it, no process, or a boot. -/
inductive StartOutcome where
  | launchFails | stdinFails | spawnFails | boots
  deriving DecidableEq, Repr

namespace Instance

/-- `start` has a process to show. -/
def boots (outcome : StartOutcome) (s : Instance) : Bool := !s.running && outcome == .boots

/-- `start`: the channel of the boot is made before the process. -/
def start (outcome : StartOutcome) (s : Instance) : Instance :=
  if s.running then s
  else match outcome with
    | .launchFails => s
    | .stdinFails => { s with exited := s.exited + 1 }
    | .spawnFails => { s with exited := s.exited + 1, stdin := true }
    | .boots =>
      let s := setStateLocked .starting false
        { s with exited := s.exited + 1, stdin := true, running := true,
                 expectedStop := false, crashed := false, deadlineArmed := false }
      { s with logBuf := [], currentTPS := .fin (-1), tpsLastUpdate := none, tpsLost := false,
               logTPS := 20, logLastWarning := none, events := s.events ++ [.serverStarted] }

/-- `stop` up to its wait for the exit. -/
def stop (s : Instance) : Instance :=
  if s.running then
    stopTPSPoll { ({ s with expectedStop := true }.setStateLocked .stopping false) with stdin := false }
  else s

/-- `forceStop` up to the kill. -/
def forceStop (s : Instance) : Instance :=
  if s.running then
    { ({ s with expectedStop := true }.setStateLocked .stopping false) with stdin := false }
  else s

/-! ## The exit of a process -/

/-- The roster goes with the process. -/
def clearRoster (s : Instance) : Instance := { s with players := ∅, presession := ∅ }

/-- How an exit is recorded: a crash wins over a stop. -/
def stopOf (code : Int) (s : Instance) : ServerStopped := ⟨s.expectedStop && !s.crashed, code⟩

/-- The section of `waitForExit` that takes the instance offline. -/
def recordExit (code : Int) (s : Instance) : Instance :=
  { ({ s with running := false }.setStateLocked .offline false) with lastStop := s.stopOf code }

/-- The section of `watchStarting`: the instance counts as running. -/
def promote (s : Instance) : Instance :=
  if s.state = .starting then s.enterRunningLocked true else s

/-- The section of `watchExitDeadline` for the boot with the given channel. -/
def endStop (boot : Nat) (s : Instance) : Instance :=
  if s.exited = boot then { s with expectedStop := true }.setStateLocked .stopping false else s

end Instance

/-- `exitLabel`. -/
def exitLabel (code : Int) : String :=
  if code = -1 then "killed by a signal" else "exit code " ++ toString code

/-- What the console says about an exit that was not asked for. -/
def exitNarration (crashed : Bool) (stop : ServerStopped) : Option String :=
  if crashed then some ("Server process exited after a crash (" ++ exitLabel stop.exitCode ++ ")")
  else if stop.expected then none
  else some ("Server process exited unexpectedly (" ++ exitLabel stop.exitCode ++ ")")

/-! ## The routines -/

/-- How far `waitForExit` has got. -/
inductive Teardown where
  | waiting
  | reaped (code : Int)
  | cleared (code : Int)
  | polled (code : Int)
  | recorded (stop : ServerStopped) (crashed : Bool)
  | narrated (stop : ServerStopped)
  deriving DecidableEq, Repr

/-- The routines of an instance, and what each has still to do. -/
inductive Routine where
  | start (outcome : StartOutcome)
  | stop (grace : Int)
  | forceStop
  | streamOutput (boot : Nat) (todo : List Section)
  | waitForExit (boot : Nat) (phase : Teardown)
  | watchStarting (boot : Nat)
  | watchExitDeadline (boot : Nat)
  | narrates (outcome line : String)
  | returned
  deriving DecidableEq, Repr

/-- The routines a boot starts. -/
def bootRoutines (boot : Nat) : List Routine :=
  [.streamOutput boot [], .streamOutput boot [], .waitForExit boot .waiting, .watchStarting boot]

def stopGraceDefault : Int := 60000000000

def maxStopGrace : Int := 600000000000

def crashedStopGrace : Int := 10000000000

/-- A stop narrates at once that the server has crashed. -/
def shortGrace (grace : Int) (s : Instance) : Bool :=
  let grace := if grace ≤ 0 then stopGraceDefault else grace
  let grace := if maxStopGrace < grace then maxStopGrace else grace
  s.crashed && decide (crashedStopGrace < grace)

/-- What `stop` does after its section. -/
def afterStop (grace : Int) (s : Instance) : Routine :=
  if s.running && shortGrace grace s then
    .narrates "progress"
      "Server already crashed, force killing the process tree in 10s unless it exits first"
  else .returned

def afterForceStop (s : Instance) : Routine :=
  if s.running then .narrates "progress" "Force stopping: killing the server process tree"
  else .returned

def afterPromote (s : Instance) : Routine :=
  if s.state = .starting then
    .narrates "progress" "No ready line seen after 10m0s, treating the server as running"
  else .returned

def afterEndStop (boot : Nat) (s : Instance) : Routine :=
  if s.exited = boot then
    .narrates "failed" ("The server shut down 30s ago but its Java process is still running, " ++
      "most likely held open by a mod's thread; ending it")
  else .returned

/-- The routines a section starts: an armed deadline watches the current boot. -/
def Section.spawns (s : Instance) : Section → List Routine
  | .armExitDeadline => if s.armable then [.watchExitDeadline s.exited] else []
  | _ => []

/-- One locked section of a routine. Lines come in any order, the process exits at any time, and
a timer may win against the exit as long as its routine has not returned. -/
inductive Routine.Step (parseIP : String → Option String) :
    Routine → Instance → Routine → Instance → List Routine → Prop
  | start {s : Instance} (outcome : StartOutcome) :
      Step parseIP (.start outcome) s .returned (s.start outcome)
        (if s.boots outcome then bootRoutines (s.exited + 1) else [])
  | stop {s : Instance} (grace : Int) :
      Step parseIP (.stop grace) s (afterStop grace s) s.stop []
  | forceStop {s : Instance} : Step parseIP .forceStop s (afterForceStop s) s.forceStop []
  | scan {s : Instance} (boot : Nat) (line : String) :
      Step parseIP (.streamOutput boot []) s (.streamOutput boot (lineSections parseIP line)) s []
  | output {s : Instance} (boot : Nat) (sec : Section) (todo : List Section) (now : Int) :
      Step parseIP (.streamOutput boot (sec :: todo)) s
        (.streamOutput boot ((sec.run now s).2 ++ todo)) (sec.run now s).1 (sec.spawns s)
  | reap {s : Instance} (boot : Nat) (code : Int) :
      Step parseIP (.waitForExit boot .waiting) s (.waitForExit boot (.reaped code)) s []
  | clear {s : Instance} (boot : Nat) (code : Int) :
      Step parseIP (.waitForExit boot (.reaped code)) s (.waitForExit boot (.cleared code))
        s.clearRoster []
  | stopPoll {s : Instance} (boot : Nat) (code : Int) :
      Step parseIP (.waitForExit boot (.cleared code)) s (.waitForExit boot (.polled code))
        s.stopTPSPoll []
  | record {s : Instance} (boot : Nat) (code : Int) :
      Step parseIP (.waitForExit boot (.polled code)) s
        (.waitForExit boot (.recorded (s.stopOf code) s.crashed)) (s.recordExit code) []
  | narrateExit {s : Instance} (boot : Nat) (stop : ServerStopped) (crashed : Bool) (now : Int) :
      Step parseIP (.waitForExit boot (.recorded stop crashed)) s
        (.waitForExit boot (.narrated stop))
        (match exitNarration crashed stop with
          | none => s
          | some line => s.narrate now "failed" line) []
  | announce {s : Instance} (boot : Nat) (stop : ServerStopped) :
      Step parseIP (.waitForExit boot (.narrated stop)) s .returned
        { s with events := s.events ++ [.serverStopped stop] } []
  | promote {s : Instance} (boot : Nat) :
      Step parseIP (.watchStarting boot) s (afterPromote s) s.promote []
  | endStop {s : Instance} (boot : Nat) :
      Step parseIP (.watchExitDeadline boot) s (afterEndStop boot s) (s.endStop boot) []
  | narrate {s : Instance} (outcome line : String) (now : Int) :
      Step parseIP (.narrates outcome line) s .returned (s.narrate now outcome line) []

/-- The calls from outside. -/
def Routine.isCall : Routine → Bool
  | .start _ | .stop _ | .forceStop => true
  | _ => false

/-- All routines of one instance. -/
def lifecycle (parseIP : String → Option String) : Program Instance Routine where
  step := Routine.Step parseIP
  begins r := r.isCall = true

/-- `newServerInstance`, before its first boot. -/
def newServerInstance (id : String) : Config Instance Routine := ⟨{ id := id }, []⟩

end Konnekt.Server
