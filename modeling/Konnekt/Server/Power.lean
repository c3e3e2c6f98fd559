import Konnekt.Server.Lifecycle

/-!
# The power gate

The service runs any number of servers, one at a time. Starting, stopping and
whatever must happen while a server is down go through one gate, which is taken
without waiting and kept for the whole action. A forced stop goes past it, and so
does a process that exits.
-/

namespace Konnekt.Server

open Go Threads

/-- The errors of power actions. -/
inductive PowerError where
  | powerActionInProgress
  | alreadyRunning
  | serverNotRunning
  | serverRunning
  | startFailed (outcome : StartOutcome)
  deriving DecidableEq, Repr

/-- `ServerService`. A boot whose channel is closed is one whose exit has been announced. -/
structure Service where
  powerMu : Bool := false
  instances : GoMap Instance
  /-- The id of the instance that `current` points to. -/
  current : String := ""
  closed : List (String × Nat) := []

/-- `NewServerService`: an instance with the empty id is there from the start. -/
def newServerService : Service :=
  { instances := AList.insert "" { id := "" } (∅ : GoMap Instance) }

namespace Service

/-- The instance of a server, as `instanceFor` finds or makes it. -/
def instanceOf (id : String) (svc : Service) : Instance :=
  (svc.instances.lookup id).getD { id := id }

def setInstance (id : String) (inst : Instance) (svc : Service) : Service :=
  { svc with instances := svc.instances.insert id inst }

/-- `instanceFor`. -/
def instanceFor (id : String) (svc : Service) : Service :=
  match svc.instances.lookup id with
  | some _ => svc
  | none => svc.setInstance id { id := id }

/-- `IsRunning`. -/
def isRunning (id : String) (svc : Service) : Bool := (svc.instanceOf id).running

/-- `setCurrent`. -/
def setCurrent (id : String) (svc : Service) : Service := { svc with current := id }

/-- `restoreCurrent`. -/
def restoreCurrent (claimed prev : String) (svc : Service) : Service :=
  if svc.current = claimed then { svc with current := prev } else svc

end Service

/-- The actions that take the gate, and the forced stop. -/
inductive PowerAction where
  | start (id : String)
  | stop (id : String) (grace : Int)
  | stopRunning (grace : Int)
  | restart (id : String) (grace : Int)
  | whileStopped (id : String) (grace : Int)
  | whileDown (id : String)
  | forceStop (id : String)
  deriving DecidableEq, Repr

/-- What the running instances are looked for: a start, or a stop of all of them. -/
inductive ScanUse where
  | start (id : String)
  | stopAll (grace : Int)
  deriving DecidableEq, Repr

/-- What follows a stop. -/
inductive AfterStop where
  | leave
  | start (id : String)
  | callback (id : String)
  | stopAll (ids : List String) (grace : Int)
  deriving DecidableEq, Repr

/-- The steps of power actions: what each has to do next. -/
inductive Phase where
  | enter (action : PowerAction)
  | stop (id : String) (grace : Int) (next : AfterStop)
  | await (id : String) (boot : Nat) (next : AfterStop)
  | force (id : String)
  | probe (id : String)
  | callback (id : String) (restart : Bool)
  | snapshot (use : ScanUse)
  | scan (use : ScanUse) (todo found : List String)
  | find (id : String)
  | claim (id : String)
  | boot (id : String) (prev : String)
  | restore (id : String) (prev : String) (outcome : StartOutcome)
  | leave (err : Option PowerError)
  | returned (err : Option PowerError)
  deriving DecidableEq, Repr

/-- What an action does behind the gate. -/
def PowerAction.first : PowerAction → Phase
  | .start id => .snapshot (.start id)
  | .stop id grace => .stop id grace .leave
  | .stopRunning grace => .snapshot (.stopAll grace)
  | .restart id grace => .stop id grace (.start id)
  | .whileStopped id grace => .stop id grace (.callback id)
  | .whileDown id => .probe id
  | .forceStop id => .force id

/-- The loop of `StopRunning`. -/
def stopNext (ids : List String) (grace : Int) : Phase :=
  match ids with
  | [] => .leave none
  | id :: ids => .stop id grace (.stopAll ids grace)

/-- After a stop. -/
def AfterStop.stopped : AfterStop → Phase
  | .leave => .leave none
  | .start id => .snapshot (.start id)
  | .callback id => .callback id true
  | .stopAll ids grace => stopNext ids grace

/-- After a stop of a server that was not running: a restart goes on, and so does the loop. -/
def AfterStop.notRunning : AfterStop → Phase
  | .leave | .callback _ => .leave (some .serverNotRunning)
  | .start id => .snapshot (.start id)
  | .stopAll ids grace => stopNext ids grace

/-- What is done with the running instances once they are known. -/
def ScanUse.found (found : List String) : ScanUse → Phase
  | .start id => if found = [] then .find id else .leave (some .alreadyRunning)
  | .stopAll grace => stopNext found grace

/-- A power action, or a routine of an instance. An action knows whether it holds the gate. -/
inductive Actor where
  | power (holds : Bool) (phase : Phase)
  | routine (id : String) (r : Routine)
  deriving DecidableEq, Repr

/-- The channels closed by a step of a routine. -/
def Routine.closes (id : String) : Routine → List (String × Nat)
  | .waitForExit boot (.narrated _) => [(id, boot)]
  | _ => []

/-- One locked section of a power action. -/
inductive Phase.Step : Bool → Phase → Service → Bool → Phase → Service → List Actor → Prop
  | refuse {svc : Service} (action : PowerAction) (hlocked : svc.powerMu = true)
      (hgate : ∀ id, action ≠ .forceStop id) :
      Step false (.enter action) svc false (.leave (some .powerActionInProgress)) svc []
  | enter {svc : Service} (action : PowerAction) (hfree : svc.powerMu = false) :
      Step false (.enter action) svc true action.first { svc with powerMu := true } []
  | pass {svc : Service} (id : String) (hlocked : svc.powerMu = true) :
      Step false (.enter (.forceStop id)) svc false (.force id) svc []
  | stop {svc : Service} {holds : Bool} (id : String) (grace : Int) (next : AfterStop) :
      Step holds (.stop id grace next) svc holds
        (if svc.isRunning id then .await id (svc.instanceOf id).exited next else next.notRunning)
        (svc.setInstance id (svc.instanceOf id).stop) []
  | await {svc : Service} {holds : Bool} (id : String) (boot : Nat) (next : AfterStop)
      (hclosed : (id, boot) ∈ svc.closed) :
      Step holds (.await id boot next) svc holds next.stopped svc []
  | force {svc : Service} {holds : Bool} (id : String) :
      Step holds (.force id) svc holds
        (if svc.isRunning id then .await id (svc.instanceOf id).exited .leave else .leave none)
        (svc.setInstance id (svc.instanceOf id).forceStop) []
  | probe {svc : Service} {holds : Bool} (id : String) :
      Step holds (.probe id) svc holds
        (if svc.isRunning id then .leave (some .serverRunning) else .callback id false)
        (svc.instanceFor id) []
  | callback {svc : Service} {holds : Bool} (id : String) (restart : Bool) :
      Step holds (.callback id restart) svc holds
        (if restart then .snapshot (.start id) else .leave none) svc []
  | snapshot {svc : Service} {holds : Bool} (use : ScanUse) (ids : List String)
      (hids : ids.Perm svc.instances.keys) :
      Step holds (.snapshot use) svc holds (.scan use ids []) svc []
  | scan {svc : Service} {holds : Bool} (use : ScanUse) (id : String) (todo found : List String) :
      Step holds (.scan use (id :: todo) found) svc holds
        (.scan use todo (if svc.isRunning id then found ++ [id] else found)) svc []
  | scanned {svc : Service} {holds : Bool} (use : ScanUse) (found : List String) :
      Step holds (.scan use [] found) svc holds (use.found found) svc []
  | find {svc : Service} {holds : Bool} (id : String) :
      Step holds (.find id) svc holds (.claim id) (svc.instanceFor id) []
  | claim {svc : Service} {holds : Bool} (id : String) :
      Step holds (.claim id) svc holds (.boot id svc.current) (svc.setCurrent id) []
  | boot {svc : Service} {holds : Bool} (id prev : String) (outcome : StartOutcome) :
      Step holds (.boot id prev) svc holds
        (if (svc.instanceOf id).boots outcome then .leave none else .restore id prev outcome)
        (svc.setInstance id ((svc.instanceOf id).start outcome))
        (if (svc.instanceOf id).boots outcome then
          (bootRoutines ((svc.instanceOf id).exited + 1)).map (.routine id) else [])
  | restore {svc : Service} {holds : Bool} (id prev : String) (outcome : StartOutcome) :
      Step holds (.restore id prev outcome) svc holds (.leave (some (.startFailed outcome)))
        (svc.restoreCurrent id prev) []
  | leave {svc : Service} (err : Option PowerError) :
      Step true (.leave err) svc false (.returned err) { svc with powerMu := false } []
  | leavePast {svc : Service} (err : Option PowerError) :
      Step false (.leave err) svc false (.returned err) svc []

/-- One locked section of an actor. -/
inductive Actor.Step (parseIP : String → Option String) :
    Actor → Service → Actor → Service → List Actor → Prop
  | power {svc svc' : Service} {holds holds' : Bool} {phase phase' : Phase} {new : List Actor}
      (h : Phase.Step holds phase svc holds' phase' svc' new) :
      Step parseIP (.power holds phase) svc (.power holds' phase') svc' new
  | routine {svc : Service} {inst : Instance} {r' : Routine} {new : List Routine} (id : String)
      (r : Routine) (hcall : r.isCall = false)
      (h : Routine.Step parseIP r (svc.instanceOf id) r' inst new) :
      Step parseIP (.routine id r) svc (.routine id r')
        { svc.setInstance id inst with closed := svc.closed ++ r.closes id }
        (new.map (.routine id))

/-- The whole service; a power action begins in front of the gate. -/
def powerSystem (parseIP : String → Option String) : Program Service Actor where
  step := Actor.Step parseIP
  begins a := ∃ action, a = .power false (.enter action)

end Konnekt.Server
