import Konnekt.Remote.TunnelRuns

/-!
# The tunnel and its listener

`BindTunnel` has the listener's change callback stop the tunnel when the listener is
down. The listener is started and stopped by hand and by the watcher of each of its
runs, and every callback is a step of its own.
-/

namespace Konnekt.Remote.Tunnel

/-- `RemoteService`, as far as the tunnel depends on it: the run with the address it is bound to,
the number of runs so far, the runs whose watchers have been told to stop, and whether the idle
period has gone by without a request. -/
structure Listener where
  run : Option (Nat × Addr)
  runs : Nat
  stopped : List Nat
  idle : Bool

/-- The two services. -/
structure Services where
  tunnel : Shared
  listener : Listener

/-- A call of one of the services, a callback of the listener, a watcher, or a request that keeps
the listener up. A call of `Stop` knows the run it was made in. -/
inductive BoundThread where
  | tunnel (t : Thread)
  | start (port : Nat)
  | stopCall | stop (called : Option Nat) | idleStop (watched : Nat)
  | closing (run : Nat) | changed
  | watch (run : Nat) | checking (run : Nat)
  | openTunnel
  | lapse | touch
  deriving DecidableEq

namespace BoundThread

/-- A `Stop` of the listener that has yet to take the lock. -/
def stopping : BoundThread → Bool
  | .stop _ | .idleStop _ => true
  | _ => false

/-- What will ask whether the listener is running, or stop the tunnel. -/
def guards : BoundThread → Bool
  | .closing _ | .changed | .tunnel .stop => true
  | _ => false

end BoundThread

/-- The steps of the two services. -/
inductive BoundStep (supported : Bool) :
    BoundThread → Services → BoundThread → Services → List BoundThread → Prop
  | tunnel {t t' : Thread} {s : Services} {shared : Shared} {new : List Thread}
      (h : Step supported t s.tunnel t' shared new) :
      BoundStep supported (.tunnel t) s (.tunnel t') { s with tunnel := shared }
        (new.map .tunnel)
  -- `Start` on a port, or on a free one
  | start {port : Nat} {s : Services} (bound : Nat) (hdown : s.listener.run = none)
      (hport : port = 0 ∨ bound = port) (hbound : 1 ≤ bound ∧ bound ≤ 65535) :
      BoundStep supported (.start port) s .changed
        { s with listener := { s.listener with
            run := some (s.listener.runs + 1, ⟨"127.0.0.1", bound⟩)
            runs := s.listener.runs + 1
            idle := false } } [.watch (s.listener.runs + 1)]
  -- running already, or nothing to listen on
  | startRefused {port : Nat} {s : Services} : BoundStep supported (.start port) s .changed s []
  -- `Stop`
  | stopCall {s : Services} :
      BoundStep supported .stopCall s (.stop (s.listener.run.map Prod.fst)) s []
  | stop {t : BoundThread} {s : Services} {run : Nat} {addr : Addr} (ht : t.stopping = true)
      (hrun : s.listener.run = some (run, addr)) :
      BoundStep supported t s (.closing run)
        { s with listener := { s.listener with run := none } } []
  | stopNothing {t : BoundThread} {s : Services} (ht : t.stopping = true)
      (hrun : s.listener.run = none) : BoundStep supported t s (.tunnel .done) s []
  | close {run : Nat} {s : Services} :
      BoundStep supported (.closing run) s .changed
        { s with listener := { s.listener with stopped := run :: s.listener.stopped } } []
  -- the change callback
  | running {s : Services} (hrun : s.listener.run.isSome = true) :
      BoundStep supported .changed s (.tunnel .done) s []
  | stopTunnel {s : Services} (hrun : s.listener.run = none) :
      BoundStep supported .changed s (.tunnel .stop) s []
  -- `idleWatch`
  | watchStopped {run : Nat} {s : Services} (hstopped : run ∈ s.listener.stopped) :
      BoundStep supported (.watch run) s (.tunnel .done) s []
  | tick {run : Nat} {s : Services} : BoundStep supported (.watch run) s (.checking run) s []
  | active {run : Nat} {s : Services} (hidle : s.listener.idle = false) :
      BoundStep supported (.checking run) s (.watch run) s []
  | idle {run : Nat} {s : Services} (hidle : s.listener.idle = true) :
      BoundStep supported (.checking run) s (.idleStop run) s []
  -- `StartRemoteTunnel`
  | openTunnel {s : Services} {run : Nat} {addr : Addr}
      (hrun : s.listener.run = some (run, addr)) :
      BoundStep supported .openTunnel s (.tunnel (.start (some addr))) s []
  | openRefused {s : Services} (hrun : s.listener.run = none) :
      BoundStep supported .openTunnel s (.tunnel .done) s []
  -- the idle period goes by, or something touches the listener
  | lapse {s : Services} : BoundStep supported .lapse s (.tunnel .done)
      { s with listener := { s.listener with idle := true } } []
  | touch {s : Services} : BoundStep supported .touch s (.tunnel .done)
      { s with listener := { s.listener with idle := false } } []

/-- The calls that are made at any time. -/
def BoundThread.isCall : BoundThread → Prop
  | .tunnel t => t.isCall
  | .start _ | .stopCall | .changed | .openTunnel | .lapse | .touch => True
  | _ => False

/-- The tunnel bound to its listener. -/
def binding (supported : Bool) : Threads.Program Services BoundThread where
  step := BoundStep supported
  begins := BoundThread.isCall

/-- Before the first call. -/
def unbound (dataDir : Bool) (named : NamedTunnel) : Threads.Config Services BoundThread where
  shared :=
    { tunnel := (initial dataDir named).shared
      listener := { run := none, runs := 0, stopped := [], idle := false } }
  threads := []

end Konnekt.Remote.Tunnel
