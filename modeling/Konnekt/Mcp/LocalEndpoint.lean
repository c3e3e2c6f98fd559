import Konnekt.Run.Threads

/-!
# The local endpoint for Claude

The switch, the listener and the record the bridge reads, as the calls move them:
the switch and the listener change in critical sections of their own, and a stop
writes the record it captured after it has shut the listener down.
-/

namespace Konnekt.Mcp

open Threads

/-- `localMCPRecord`: the content of `mcp-local.json`. -/
structure LocalMCPRecord where
  enabled : Bool
  port : Nat := 0
  secret : String := ""
  deriving DecidableEq, Repr

/-- The port and the secret of a listener. -/
structure Listener where
  port : Nat
  secret : String
  deriving DecidableEq, Repr

/-- `LocalMCPService` of an app with a catalog and a data directory, and its file. -/
structure LocalMCPService where
  enabled : Bool
  listener : Option Listener
  file : LocalMCPRecord
  deriving DecidableEq, Repr

/-- What opening the endpoint comes to: no secret or no socket, or a listener. -/
abbrev Opening := Except String Listener

/-- The calls, and what each has still to do. -/
inductive LocalCall where
  | setEnabled (on : Bool) (opening : Opening)
  | start (opening : Opening)
  | stop
  /-- A stop after its critical section: the listener is shut down, and then the record is
  written. -/
  | shutdown (rec : LocalMCPRecord)
  | returned

namespace LocalMCPService

/-- `Start`, which is one critical section. -/
def start (opening : Opening) (s : LocalMCPService) : LocalMCPService :=
  match s.listener, opening with
  | some _, _ => s
  | none, .error _ => s
  | none, .ok l => { s with listener := some l, file := ⟨s.enabled, l.port, l.secret⟩ }

end LocalMCPService

/-- One critical section of a call, or the write of a stop. -/
inductive LocalCall.Step :
    LocalCall → LocalMCPService → LocalCall → LocalMCPService → List LocalCall → Prop
  | switchOn {s : LocalMCPService} (opening : Opening) :
      Step (.setEnabled true opening) s (.start opening) { s with enabled := true } []
  | switchOff {s : LocalMCPService} (opening : Opening) :
      Step (.setEnabled false opening) s .stop { s with enabled := false } []
  | start {s : LocalMCPService} (opening : Opening) :
      Step (.start opening) s .returned (s.start opening) []
  | stop {s : LocalMCPService} :
      Step .stop s (.shutdown { enabled := s.enabled }) { s with listener := none } []
  | writeRecord {s : LocalMCPService} (rec : LocalMCPRecord) :
      Step (.shutdown rec) s .returned { s with file := rec } []

/-- The calls from outside. -/
def LocalCall.isCall : LocalCall → Prop
  | .setEnabled _ _ | .start _ | .stop => True
  | .shutdown _ | .returned => False

/-- The calls of the app on its local endpoint. -/
def localProgram : Program LocalMCPService LocalCall where
  step := LocalCall.Step
  begins := LocalCall.isCall

/-- The app comes up: the switch is where the file says. An endpoint that was on is started, and
the file may still name the listener of an earlier life. -/
def launched (saved : Option Listener) (opening : Opening) : Config LocalMCPService LocalCall :=
  match saved with
  | none => ⟨⟨false, none, { enabled := false }⟩, []⟩
  | some l => ⟨⟨true, none, ⟨true, l.port, l.secret⟩⟩, [.start opening]⟩

/-- The file holds the switch's position and the listener, and there is one exactly when the
switch is on. -/
structure Truthful (s : LocalMCPService) : Prop where
  file : s.file =
    match s.listener with
    | some l => ⟨s.enabled, l.port, l.secret⟩
    | none => { enabled := s.enabled }
  listens : s.listener.isSome = s.enabled

end Konnekt.Mcp
