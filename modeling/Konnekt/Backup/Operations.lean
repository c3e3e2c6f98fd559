import Konnekt.Go.Map
import Konnekt.Run.Threads
import Konnekt.Server.Power

/-!
# Copies of a live server

A backup of a running server pauses its world saves, copies, and resumes them, and
so does the duplication of a world. Pausing is not counted: one save-on undoes any
number of save-offs. The backups claim their server before they pause it.
-/

namespace Konnekt.Backup

open Go Threads Server

/-! ## The claim -/

/-- `claim`: the map after it, and whether it got the server. -/
def claim (serverID : String) (busy : GoMap Bool) : GoMap Bool × Bool :=
  if busy.lookup serverID = some true then (busy, false) else (busy.insert serverID true, true)

/-- `release`. -/
def release (serverID : String) (busy : GoMap Bool) : GoMap Bool := busy.erase serverID

def claimed (serverID : String) (busy : GoMap Bool) : Bool := busy.lookup serverID == some true

@[simp] theorem claimed_insert_self (id : String) (busy : GoMap Bool) :
    claimed id (busy.insert id true) = true := by
  simp [claimed]

@[simp] theorem claimed_insert_ne {id other : String} (h : id ≠ other) (busy : GoMap Bool) :
    claimed id (busy.insert other true) = claimed id busy := by
  simp [claimed, AList.lookup_insert_ne h]

@[simp] theorem claimed_release_self (id : String) (busy : GoMap Bool) :
    claimed id (release id busy) = false := by
  simp [claimed, release]

@[simp] theorem claimed_release_ne {id other : String} (h : id ≠ other) (busy : GoMap Bool) :
    claimed id (release other busy) = claimed id busy := by
  simp [claimed, release, AList.lookup_erase_ne h]

/-! ## The operations -/

/-- The commands that pause saves, write out what is pending, and resume saves. -/
inductive SaveCommand where
  | saveOff | saveAllFlush | saveOn
  deriving DecidableEq, Repr

/-- The servers, the claims on them, and the commands given to `saveCommand`. -/
structure Saves where
  running : String → Bool
  busy : GoMap Bool := ∅
  sent : List (String × SaveCommand) := []

def Saves.send (id : String) (cmd : SaveCommand) (s : Saves) : Saves :=
  { s with sent := s.sent ++ [(id, cmd)] }

inductive OperationKind where
  | createBackup | createWorldBackup | duplicateWorld
  deriving DecidableEq, Repr

/-- The backups claim their server. -/
def OperationKind.claims : OperationKind → Bool
  | .createBackup | .createWorldBackup => true
  | .duplicateWorld => false

/-- What an operation does next. -/
inductive OperationPhase where
  | checks
  | claim
  | setup
  | prepare
  | saveOff
  | saveAllFlush
  | undo
  | copy (paused : Bool)
  | resume
  | saveOn
  | release
  | returned
  deriving DecidableEq, Repr

structure Operation where
  kind : OperationKind
  serverID : String
  phase : OperationPhase
  deriving DecidableEq, Repr

/-- What an operation does once its checks have passed. -/
def OperationKind.first (kind : OperationKind) : OperationPhase :=
  if kind.claims then .claim else .prepare

/-- What is left to do once saves are on again. -/
def OperationKind.last (kind : OperationKind) : OperationPhase :=
  if kind.claims then .release else .returned

/-- One step of an operation. Whatever can fail may fail, sending a command included. -/
inductive OperationKind.Step (kind : OperationKind) (id : String) :
    OperationPhase → Saves → OperationPhase → Saves → Prop
  | checksFail {s : Saves} : Step kind id .checks s .returned s
  | checksPass {s : Saves} : Step kind id .checks s kind.first s
  | claim {s : Saves} (hclaims : kind.claims = true) :
      Step kind id .claim s (if (Backup.claim id s.busy).2 then .setup else .returned)
        { s with busy := (Backup.claim id s.busy).1 }
  | setupFails {s : Saves} : Step kind id .setup s .release s
  | setup {s : Saves} : Step kind id .setup s .prepare s
  | prepare {s : Saves} :
      Step kind id .prepare s (if s.running id then .saveOff else .copy false) s
  | saveOff {s : Saves} (ok : Bool) :
      Step kind id .saveOff s (if ok then .saveAllFlush else .undo) (s.send id .saveOff)
  | saveAllFlush {s : Saves} (ok : Bool) :
      Step kind id .saveAllFlush s (if ok then .copy true else .undo) (s.send id .saveAllFlush)
  | undo {s : Saves} : Step kind id .undo s kind.last (s.send id .saveOn)
  | copied {s : Saves} (paused : Bool) :
      Step kind id (.copy paused) s (if paused then .resume else kind.last) s
  | resume {s : Saves} :
      Step kind id .resume s (if s.running id then .saveOn else kind.last) s
  | saveOn {s : Saves} : Step kind id .saveOn s kind.last (s.send id .saveOn)
  | release {s : Saves} (hclaims : kind.claims = true) :
      Step kind id .release s .returned { s with busy := Backup.release id s.busy }

/-- Any number of operations on any servers. -/
def operations : Program Saves Operation where
  step op s op' s' new :=
    ∃ phase, op.kind.Step op.serverID op.phase s phase s' ∧ op' = { op with phase := phase } ∧
      new = []
  begins op := op.phase = .checks

/-- No operation has begun. -/
def noOperations (running : String → Bool) : Config Saves Operation := ⟨{ running := running }, []⟩

/-! ## Restores beside the power gate

A restore looks once whether its server is running, claims it, extracts the
archive and moves folders. Starts go through the power gate, which a restore does
not take. -/

/-- The service, and the claims of backups and restores. -/
structure Machine where
  service : Service
  busy : GoMap Bool := ∅

/-- What a restore does next. `moved` counts the renames it has made. -/
inductive RestorePhase where
  | check
  | lookup
  | claim
  | extract
  | swap (moved : Nat)
  | release
  | returned
  deriving DecidableEq, Repr

/-- What holds the claim of another operation. -/
inductive BackupPhase where
  | claim
  | work
  | returned
  deriving DecidableEq, Repr

/-- A power action or a routine of a server, a restore, or a backup of either kind. -/
inductive Party where
  | service (a : Actor)
  | restore (serverID : String) (phase : RestorePhase)
  | backup (serverID : String) (phase : BackupPhase)
  deriving DecidableEq, Repr

/-- One step of a restore. It may fail before each of them, and what it moved is put back before
it releases its claim. -/
inductive RestoreStep (id : String) : RestorePhase → Machine → RestorePhase → Machine → Prop
  | checkFails {m : Machine} : RestoreStep id .check m .returned m
  | check {m : Machine} :
      RestoreStep id .check m (if m.service.isRunning id then .returned else .lookup)
        { m with service := m.service.instanceFor id }
  | lookupFails {m : Machine} : RestoreStep id .lookup m .returned m
  | lookup {m : Machine} : RestoreStep id .lookup m .claim m
  | claim {m : Machine} :
      RestoreStep id .claim m (if (Backup.claim id m.busy).2 then .extract else .returned)
        { m with busy := (Backup.claim id m.busy).1 }
  | extractFails {m : Machine} : RestoreStep id .extract m .release m
  | extract {m : Machine} : RestoreStep id .extract m (.swap 0) m
  | move {m : Machine} (moved : Nat) : RestoreStep id (.swap moved) m (.swap (moved + 1)) m
  | done {m : Machine} (moved : Nat) : RestoreStep id (.swap moved) m .release m
  | release {m : Machine} :
      RestoreStep id .release m .returned { m with busy := Backup.release id m.busy }

/-- One step of a backup, as far as a restore can tell. -/
inductive BackupStep (id : String) : BackupPhase → Machine → BackupPhase → Machine → Prop
  | claim {m : Machine} :
      BackupStep id .claim m (if (Backup.claim id m.busy).2 then .work else .returned)
        { m with busy := (Backup.claim id m.busy).1 }
  | release {m : Machine} :
      BackupStep id .work m .returned { m with busy := Backup.release id m.busy }

inductive Party.Step (parseIP : String → Option String) :
    Party → Machine → Party → Machine → List Party → Prop
  | service {m : Machine} {a a' : Actor} {svc' : Service} {new : List Actor}
      (h : Actor.Step parseIP a m.service a' svc' new) :
      Step parseIP (.service a) m (.service a') { m with service := svc' } (new.map .service)
  | restore {m m' : Machine} {phase phase' : RestorePhase} (id : String)
      (h : RestoreStep id phase m phase' m') :
      Step parseIP (.restore id phase) m (.restore id phase') m' []
  | backup {m m' : Machine} {phase phase' : BackupPhase} (id : String)
      (h : BackupStep id phase m phase' m') :
      Step parseIP (.backup id phase) m (.backup id phase') m' []

/-- All of them at once. -/
def machine (parseIP : String → Option String) : Program Machine Party where
  step := Party.Step parseIP
  begins p := (∃ action, p = .service (.power false (.enter action))) ∨
    (∃ id, p = .restore id .check) ∨ ∃ id, p = .backup id .claim

/-- Nothing is running. -/
def machineDown : Config Machine Party := ⟨{ service := newServerService }, []⟩

end Konnekt.Backup
