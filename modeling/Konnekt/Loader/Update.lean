import Konnekt.Backup.Operations
import Konnekt.Server.Configs
import Konnekt.Server.Launch

/-!
# Loader updates beside the power gate

An update looks once whether its server is running, asks the network which builds
there are, takes the one slot there is for updates, and goes on in the background:
a backup, a snapshot of the launch files, the download, the installer, and the
rollback of what the installer did. Starts go through the power gate, which an
update does not take.
-/

namespace Konnekt.Loader

open Go Threads Server Backup

/-- The id of a configured server: `SaveServerConfig` refuses others. -/
abbrev ServerID : Type := {id : String // validServerID id = true}

/-- The service, the claims of backups, and the server whose loader is being updated. -/
structure Host extends Machine where
  updating : String := ""

/-- `ActiveServerID` of the instance that `current` pointed to. -/
def activeServerID (current : String) (svc : Service) : String :=
  if svc.isRunning current then current else ""

/-- What an update does next. From `start` on it runs in the background. -/
inductive UpdatePhase where
  | current
  | check (current : String)
  | versions
  | slot
  | start
  | backup (phase : BackupPhase)
  | snapshot
  | download
  | install
  | verify
  | rollback
  | save
  | report
  | release
  | returned
  deriving DecidableEq, Repr

/-- A power action or a routine of a server, a backup, or an update, before and after it has found
the configuration of its server. -/
inductive Party where
  | service (a : Actor)
  | backup (serverID : String) (phase : BackupPhase)
  | call (serverID : String) (fullBackup : Bool)
  | update (serverID : ServerID) (fullBackup : Bool) (phase : UpdatePhase)
  | refused
  deriving DecidableEq, Repr

/-- One step of an update. What the console is told makes the instance of the server. -/
inductive UpdateStep (id : ServerID) (fullBackup : Bool) :
    UpdatePhase → Host → UpdatePhase → Host → Prop
  | current {s : Host} : UpdateStep id fullBackup .current s (.check s.service.current) s
  | check {s : Host} (current : String) :
      UpdateStep id fullBackup (.check current) s
        (if activeServerID current s.service = id then .returned else .versions) s
  | unmanaged {s : Host} : UpdateStep id fullBackup .versions s .returned s
  | versions {s : Host} : UpdateStep id fullBackup .versions s .slot s
  | slot {s : Host} :
      UpdateStep id fullBackup .slot s (if s.updating = "" then .start else .returned)
        { s with updating := if s.updating = "" then id else s.updating }
  | start {s : Host} :
      UpdateStep id fullBackup .start s (if fullBackup then .backup .claim else .snapshot)
        { s with service := s.service.instanceFor id }
  | backup {s : Host} {m : Machine} {phase phase' : BackupPhase}
      (h : BackupStep id phase s.toMachine phase' m) :
      UpdateStep id fullBackup (.backup phase) s (.backup phase') { s with toMachine := m }
  | backupFailed {s : Host} : UpdateStep id fullBackup (.backup .returned) s .report s
  | backedUp {s : Host} : UpdateStep id fullBackup (.backup .returned) s .snapshot s
  | snapshotFails {s : Host} : UpdateStep id fullBackup .snapshot s .report s
  | snapshot {s : Host} : UpdateStep id fullBackup .snapshot s .download s
  | downloadFails {s : Host} : UpdateStep id fullBackup .download s .report s
  | download {s : Host} : UpdateStep id fullBackup .download s .install s
  | installFails {s : Host} : UpdateStep id fullBackup .install s .rollback s
  | install {s : Host} : UpdateStep id fullBackup .install s .verify s
  | otherBuild {s : Host} : UpdateStep id fullBackup .verify s .rollback s
  | verify {s : Host} : UpdateStep id fullBackup .verify s .save s
  | rollback {s : Host} : UpdateStep id fullBackup .rollback s .report s
  | save {s : Host} : UpdateStep id fullBackup .save s .report s
  | report {s : Host} :
      UpdateStep id fullBackup .report s .release { s with service := s.service.instanceFor id }
  | release {s : Host} : UpdateStep id fullBackup .release s .returned { s with updating := "" }

inductive Party.Step (parseIP : String → Option String) :
    Party → Host → Party → Host → List Party → Prop
  | service {s : Host} {a a' : Actor} {svc' : Service} {new : List Actor}
      (h : Actor.Step parseIP a s.service a' svc' new) :
      Step parseIP (.service a) s (.service a') { s with service := svc' } (new.map .service)
  | backup {s : Host} {m : Machine} {phase phase' : BackupPhase} (id : String)
      (h : BackupStep id phase s.toMachine phase' m) :
      Step parseIP (.backup id phase) s (.backup id phase') { s with toMachine := m } []
  | unknown {s : Host} (id : String) (fullBackup : Bool) :
      Step parseIP (.call id fullBackup) s .refused s []
  | configured {s : Host} (id : ServerID) (fullBackup : Bool) :
      Step parseIP (.call id fullBackup) s (.update id fullBackup .current) s []
  | update {s s' : Host} {phase phase' : UpdatePhase} (id : ServerID) (fullBackup : Bool)
      (h : UpdateStep id fullBackup phase s phase' s') :
      Step parseIP (.update id fullBackup phase) s (.update id fullBackup phase') s' []

/-- All of them at once. -/
def loaderSystem (parseIP : String → Option String) : Program Host Party where
  step := Party.Step parseIP
  begins p := (∃ action, p = .service (.power false (.enter action))) ∨
    (∃ id, p = .backup id .claim) ∨ ∃ id fullBackup, p = .call id fullBackup

/-- Nothing is running. -/
def hostDown : Config Host Party := ⟨{ service := newServerService }, []⟩

/-! ## The rollback of a loader update

Before the installer runs, the launcher scripts and `user_jvm_args.txt` are copied
away. When it fails, or leaves the server launching another build than it was asked
for, the copies are put back. What was not there before stays where it is. -/

/-- `loaderLaunchFiles`, copied away. -/
structure Snapshot where
  script : LaunchScript → Option String
  userJvmArgs : Option String

/-- The copy of one file: none of one that is not there, and no copy at all of one that cannot
be read. -/
def copyFile : Option TextFile → Option (Option String)
  | none => some none
  | some (.text content) => some (some content)
  | some .unreadable => none

/-- `snapshotLaunchFiles`. -/
def snapshotLaunchFiles (files : LaunchFiles) : Option Snapshot := do
  let runSh ← copyFile (files.script .runSh)
  let runBat ← copyFile (files.script .runBat)
  let userJvmArgs ← copyFile files.userJvmArgs
  return { script := fun s => match s with
             | .runSh => runSh
             | .runBat => runBat
           userJvmArgs := userJvmArgs }

/-- One file after the rollback. -/
def restoreFile (copy : Option String) (now : Option TextFile) : Option TextFile :=
  match copy with
  | some content => some (.text content)
  | none => now

/-- `rollback`: the files after it. -/
def rollback (snapshot : Snapshot) (files : LaunchFiles) : LaunchFiles where
  script s := restoreFile (snapshot.script s) (files.script s)
  userJvmArgs := restoreFile snapshot.userJvmArgs files.userJvmArgs
  argfiles := files.argfiles

/-- `rollback`: whether it put anything back. -/
def Snapshot.any (snapshot : Snapshot) : Bool :=
  (snapshot.script .runSh).isSome || (snapshot.script .runBat).isSome ||
    snapshot.userJvmArgs.isSome

/-- The step of an update that fails. -/
inductive FailingStep where
  | backup | snapshot | download | installer | nothing
  deriving DecidableEq, Repr

/-- The errors of an update. -/
inductive UpdateError where
  | backup | snapshot | download | installer
  | otherBuild (installed source : String)
  deriving DecidableEq, Repr

/-- The disk with the launch files of a directory replaced. -/
def setFiles (dir : String) (files : LaunchFiles) (d : Disk) : Disk :=
  { d with files := Function.update d.files dir files }

/-- `updateWithRollback`, when the installer leaves `installed`: the disk, whether a snapshot was
restored, and the error. -/
def updateWithRollback (p : Platform) (d : Disk) (jarPath workingDir version : String)
    (failing : FailingStep) (installed : LaunchFiles) : Disk × Bool × Option UpdateError :=
  match failing, snapshotLaunchFiles (d.files workingDir) with
  | .backup, _ => (d, false, some .backup)
  | .snapshot, _ | _, none => (d, false, some .snapshot)
  | .download, _ => (d, false, some .download)
  | .installer, some snapshot =>
    (setFiles workingDir (rollback snapshot installed) d, snapshot.any, some .installer)
  | .nothing, some snapshot =>
    let detected := detectLoaderVersion p (setFiles workingDir installed d) jarPath workingDir
    if detected.1 ≠ version then
      (setFiles workingDir (rollback snapshot installed) d, snapshot.any,
        some (.otherBuild detected.1 detected.2))
    else (setFiles workingDir installed d, false, none)

/-- What an installer may do: it creates and rewrites scripts and argfiles. -/
structure Installs (before after : LaunchFiles) : Prop where
  script : ∀ s, (before.script s).isSome = true → (after.script s).isSome = true
  userJvmArgs : before.userJvmArgs.isSome = true → after.userJvmArgs.isSome = true
  argfiles : ∀ loader, ∀ a ∈ before.argfiles loader,
    ∃ a' ∈ after.argfiles loader, a'.build = a.build

end Konnekt.Loader
