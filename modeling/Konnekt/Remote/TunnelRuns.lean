import Konnekt.Remote.Tunnel
import Konnekt.Run.Notices

/-!
# Calls and runs of the tunnel

`Start`, `Stop`, `SaveNamed` and `ForgetNamed` are called at any time, and a run
goes its own way from the check of the binary to the exit of `cloudflared`. Each
section under the lock is one step, and so is each call of `OnHost` after it.
-/

namespace Konnekt.Remote.Tunnel

/-- What the calls and the runs share, with the hostnames the listener answers to. The calls of
`OnHost` are kept in the order of the sections that make them, until they are delivered, and then
in the order of their delivery. The last start is kept with its generation. -/
structure Shared where
  tunnel : TunnelService
  cancelled : List Nat
  hosts : Finset String
  queue : List HostCall
  delivered : List HostCall
  started : Option (Nat × Addr)

/-- The run of a generation. -/
structure RunInfo where
  gen : Nat
  plan : TunnelRun
  deriving DecidableEq

/-- How far a run is. While it reads, the time for the URL may have run out, and the hostname may
have been announced. -/
inductive Phase where
  | preparing | downloading | launching
  | reading (timedOut connected : Bool)
  | announcing (call : HostCall) (timedOut : Bool)
  deriving DecidableEq

/-- A call of the service, or a run. -/
inductive Thread where
  | start (addr : Option Addr)
  | stop | cancelling (run : Option Nat) | finishing
  | saveNamed (hostname : String) (port : Nat) (token : String)
  | forgetNamed
  | report (call : HostCall)
  | run (r : RunInfo) (phase : Phase)
  | done
  deriving DecidableEq

/-- The call of `OnHost` a thread is about to make. -/
def Thread.pending : Thread → Option HostCall
  | .report call | .run _ (.announcing call _) => some call
  | _ => none

/-- A thread at the end of its section. -/
def Thread.reporting : Option HostCall → Thread
  | some call => .report call
  | none => .done

namespace Shared

/-- `AllowHost` and `DisallowHost`, as `OnHost` calls them. -/
def answers (hosts : Finset String) (call : HostCall) : Finset String :=
  if call.up then insert (toLower call.host.name) hosts else hosts.erase (toLower call.host.name)

/-- The service after a section, and the call the section makes. -/
def after (s : Shared) (result : TunnelService × Option HostCall) : Shared :=
  { s with tunnel := result.1, queue := s.queue ++ result.2.toList }

/-- A call of `OnHost` has been made. -/
def deliver (s : Shared) (call : HostCall) : Shared :=
  { s with
    hosts := answers s.hosts call
    queue := s.queue.erase call
    delivered := s.delivered ++ [call] }

end Shared

/-- The message of a run that has ended by itself. -/
def exitMessage (timedOut connected : Bool) (reason detail : String) : String :=
  if timedOut then "cloudflared did not connect within 45s" ++ detail
  else if connected then "the tunnel stopped unexpectedly" ++ detail
  else "cloudflared exited before it connected (" ++ reason ++ ")" ++ detail

/-- The steps of the calls and of the runs. -/
inductive Step (supported : Bool) : Thread → Shared → Thread → Shared → List Thread → Prop
  -- `Start`
  | start {addr : Option Addr} {s : Shared} {t : TunnelService} {target : Addr} {plan : TunnelRun}
      (h : s.tunnel.start supported addr = .ok (t, target, plan)) :
      Step supported (.start addr) s .done
        { s with tunnel := t, started := some (t.gen, target) } [.run ⟨t.gen, plan⟩ .preparing]
  | startRefused {addr : Option Addr} {s : Shared} {e : TunnelError}
      (h : s.tunnel.start supported addr = .error e) : Step supported (.start addr) s .done s []
  -- `Stop`
  | stopNothing {s : Shared} (h : s.tunnel.stopBegin = none) : Step supported .stop s .done s []
  | stopBegin {s : Shared} {t : TunnelService} {run : Option Nat}
      (h : s.tunnel.stopBegin = some (t, run)) :
      Step supported .stop s (.cancelling run) { s with tunnel := t } []
  | cancel {s : Shared} {run : Option Nat} :
      Step supported (.cancelling run) s .finishing
        { s with cancelled := run.toList ++ s.cancelled } []
  -- the run has ended, or has not ended in time
  | stopEnd {s : Shared} :
      Step supported .finishing s (.reporting s.tunnel.stopEnd.2) (s.after s.tunnel.stopEnd) []
  -- `SaveNamed` and `ForgetNamed`
  | saveNamed {hostname token : String} {port : Nat} {writes : Bool} {s : Shared}
      {result : TunnelService × Option HostCall}
      (h : s.tunnel.saveNamed writes hostname port token = .ok result) :
      Step supported (.saveNamed hostname port token) s (.reporting result.2) (s.after result) []
  | saveRefused {hostname token : String} {port : Nat} {writes : Bool} {s : Shared}
      {e : TunnelError} (h : s.tunnel.saveNamed writes hostname port token = .error e) :
      Step supported (.saveNamed hostname port token) s .done s []
  | forgetNamed {removes : Bool} {s : Shared} {result : TunnelService × Option HostCall}
      (h : s.tunnel.forgetNamed removes = .ok result) :
      Step supported .forgetNamed s (.reporting result.2) (s.after result) []
  | forgetRefused {removes : Bool} {s : Shared} {e : TunnelError}
      (h : s.tunnel.forgetNamed removes = .error e) : Step supported .forgetNamed s .done s []
  -- `OnHost`
  | report {call : HostCall} {s : Shared} :
      Step supported (.report call) s .done (s.deliver call) []
  | announced {r : RunInfo} {call : HostCall} {timedOut : Bool} {s : Shared} :
      Step supported (.run r (.announcing call timedOut)) s (.run r (.reading timedOut true))
        (s.deliver call) []
  -- `prepareBinary`
  | downloading {r : RunInfo} {s : Shared} :
      Step supported (.run r .preparing) s (.run r .downloading)
        { s with tunnel := s.tunnel.set r.gen fun st =>
            { st with status := .downloading, percent := 0 } } []
  | percent {r : RunInfo} {s : Shared} (pct : Nat) :
      Step supported (.run r .downloading) s (.run r .downloading)
        { s with tunnel := s.tunnel.set r.gen fun st => { st with percent := pct } } []
  | prepared {r : RunInfo} {phase : Phase} {s : Shared}
      (hphase : phase = .preparing ∨ phase = .downloading) :
      Step supported (.run r phase) s
        (if r.gen = s.tunnel.gen then .run r .launching else .done)
        { s with tunnel := s.tunnel.set r.gen fun st =>
            { st with status := .starting, percent := 0 } } []
  -- cancelled by `Stop`, which reports "off"
  | stopped {r : RunInfo} {phase : Phase} {s : Shared}
      (hphase : phase = .preparing ∨ phase = .downloading ∨
        ∃ timedOut connected, phase = .reading timedOut connected)
      (hcancelled : r.gen ∈ s.cancelled) : Step supported (.run r phase) s .done s []
  | notPrepared {r : RunInfo} {phase : Phase} {s : Shared} {msg : String}
      (hphase : phase = .preparing ∨ phase = .downloading) (hgoing : r.gen ∉ s.cancelled) :
      Step supported (.run r phase) s (.reporting (s.tunnel.fail r.gen msg).2)
        (s.after (s.tunnel.fail r.gen msg)) []
  -- `runProcess`
  | notLaunched {r : RunInfo} {s : Shared} {msg : String} :
      Step supported (.run r .launching) s (.reporting (s.tunnel.fail r.gen msg).2)
        (s.after (s.tunnel.fail r.gen msg)) []
  | launched {r : RunInfo} {s : Shared} :
      Step supported (.run r .launching) s
        (if r.gen = s.tunnel.gen then .run r (.reading false false) else .done) s []
  | line {r : RunInfo} {timedOut : Bool} {s : Shared} {text : String} {host : Hostname}
      (h : r.plan.tunnelUp text = some host) :
      Step supported (.run r (.reading timedOut false)) s
        (.run r (match (s.tunnel.up r.gen host).2 with
          | some call => .announcing call timedOut
          | none => .reading timedOut true))
        (s.after (s.tunnel.up r.gen host)) []
  | timeout {r : RunInfo} {s : Shared} :
      Step supported (.run r (.reading false false)) s (.run r (.reading true false)) s []
  | exited {r : RunInfo} {timedOut connected : Bool} {s : Shared} (reason detail : String)
      (hgoing : r.gen ∉ s.cancelled) :
      Step supported (.run r (.reading timedOut connected)) s
        (.reporting (s.tunnel.fail r.gen (exitMessage timedOut connected reason detail)).2)
        (s.after (s.tunnel.fail r.gen (exitMessage timedOut connected reason detail))) []

/-- The calls that are made at any time. -/
def Thread.isCall : Thread → Prop
  | .start _ | .stop | .saveNamed _ _ _ | .forgetNamed => True
  | _ => False

/-- The tunnel, on a platform `cloudflared` may be pinned for. -/
def program (supported : Bool) : Threads.Program Shared Thread where
  step := Step supported
  begins := Thread.isCall

/-- Before the first call. -/
def initial (dataDir : Bool) (named : NamedTunnel) : Threads.Config Shared Thread where
  shared :=
    { tunnel := newTunnelService dataDir named
      cancelled := []
      hosts := ∅
      queue := []
      delivered := []
      started := none }
  threads := []

end Konnekt.Remote.Tunnel
