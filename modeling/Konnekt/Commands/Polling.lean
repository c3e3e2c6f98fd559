import Konnekt.Commands.Kommands
import Konnekt.Run.Labelled
import Mathlib.Logic.Function.Basic

/-!
# Polls beside the frontend

Polls run step by step beside each other, while Kommands replaces the shared file and the
frontend loads the list of buttons and writes it back whole.
-/

namespace Konnekt.Commands

/-- A call of `Poll(false)` under way; it is fresh until the file changes or a save is stored. -/
structure Poll where
  phase : Phase
  fresh : Bool := true

/-- The shared file, the backend and what the frontend has loaded. -/
structure World where
  file : Option SharedFile
  service : KommandsService
  buttons : Option (List CommandButton)
  /-- How many `commands:changed` events have been emitted. -/
  emitted : Nat := 0
  polls : Nat → Option Poll := fun _ => none
  /-- Every list that `GetCommandButtons` has handed out. -/
  lists : List (List CommandButton) := []
  /-- Every list that `GetKommandsCommands` has handed out. -/
  offers : List (List KommandsSavedCommand) := []
  /-- Whether a fresh poll has returned nil. -/
  answered : Bool := false

inductive Event where
  /-- A poll begins; looking at the file may fail for another reason than its absence. -/
  | poll (id : Nat) (failure : Option String)
  | read (id : Nat) (failure : Option String)
  | remember (id : Nat)
  | sync (id : Nat) (access : Access)
  | change (file : Option SharedFile)
  | load
  | loadSaved
  | save (items : List CommandButton) (access : Access)

namespace World

/-- Before any poll. -/
def start (path : String) (file : Option SharedFile) (buttons : Option (List CommandButton)) :
    World :=
  { file := file, service := { path := path }, buttons := buttons }

/-- What a step of a poll comes to for its call. -/
def settle (id : Nat) (fresh : Bool) (outcome : Outcome) (s : World) : World :=
  match outcome with
  | .goesOn phase =>
    { s with polls := Function.update s.polls id (some { phase := phase, fresh := fresh }) }
  | .returned err =>
    { s with
      polls := Function.update s.polls id none
      answered := s.answered || (fresh && err = none) }

/-- The last step has synced the buttons or marked them. -/
def finish (id : Nat) (fresh : Bool) (result : Except String Bool × Option (List CommandButton))
    (s : World) : World :=
  match result with
  | (.error error, buttons) =>
    { s with buttons := buttons }.settle id fresh (.returned (some error))
  | (.ok changed, buttons) =>
    { s with
      buttons := buttons
      emitted := if changed then s.emitted + 1 else s.emitted }.settle id fresh (.returned none)

/-- From now on only a poll that is yet to begin tells that all is quiet. -/
def unsettle (s : World) : World :=
  { s with
    polls := fun id => (s.polls id).map fun p => { p with fresh := false }
    answered := false }

/-- What `os.Stat` answers. -/
def found (failure : Option String) (s : World) : Except String (Option FileInfo) :=
  match failure with
  | some error => .error error
  | none => .ok (s.file.map (·.info))

/-- What `os.ReadFile` answers. -/
def contents (failure : Option String) (s : World) : Except String (Except String KommandsFile) :=
  match failure, s.file with
  | some error, _ => .error error
  | none, some file => .ok file.data
  | none, none => .error "file does not exist"

def poll (id : Nat) (failure : Option String) (s : World) : World :=
  let step := s.service.stat (s.found failure)
  { s with service := step.2 }.settle id true step.1

def read (id : Nat) (failure : Option String) (s : World) : World :=
  match s.polls id with
  | some { phase := .found info, fresh } =>
    let step := s.service.read info (s.contents failure)
    { s with service := step.2 }.settle id fresh step.1
  | _ => s

def remember (id : Nat) (s : World) : World :=
  match s.polls id with
  | some { phase := .parsing info data, fresh } =>
    let step := s.service.remember info data
    { s with service := step.2 }.settle id fresh step.1
  | _ => s

def sync (id : Nat) (access : Access) (s : World) : World :=
  match s.polls id with
  | some { phase := .syncing kept, fresh } => s.finish id fresh (syncLinks kept access s.buttons)
  | some { phase := .absent, fresh } => s.finish id fresh (markLinksBroken access s.buttons)
  | _ => s

/-- `SaveCommandButtons`. -/
def save (items : List CommandButton) (access : Access) (s : World) : World :=
  match Commands.save items access s.buttons with
  | (some _, _) => s
  | (none, buttons) => { s with buttons := buttons }.unsettle

def act (s : World) : Event → World
  | .poll id failure => s.poll id failure
  | .read id failure => s.read id failure
  | .remember id => s.remember id
  | .sync id access => s.sync id access
  | .change file => { s with file := file }.unsettle
  -- A list that is not there yet is seeded by a save.
  | .load => { s with lists := s.buttons.toList ++ s.lists }
  | .loadSaved => { s with offers := s.service.saved :: s.offers }
  | .save items access => s.save items access

end World

/-- The backend beside Kommands and the frontend. -/
def kommands : Labelled.System World Event Unit where
  act e s := ((), s.act e)
  enabled
    | .poll id _, s => s.polls id = none
    | _, _ => True

end Konnekt.Commands
