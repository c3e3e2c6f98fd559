import Konnekt.Remote.Names
import Konnekt.Remote.Runtime
import Konnekt.Run.Labelled

/-!
# Sockets between the hub and a browser

The handler of a socket goes from the upgrade to membership in two steps of the hub, a
replay and an addition. Events are published between any two steps. One page is looked
at; every other socket of the hub is some socket.
-/

namespace Konnekt.Remote

/-- `handleWS` between the upgrade and the membership, before or after the replay is queued. -/
structure Upgrade where
  client : RemoteClient
  since : Nat
  run : String
  welcomed : Bool := false
  deriving DecidableEq, Repr

/-- The hub, the handlers on their way to it, what is written to each socket and not yet read, the
page, and the number of the next socket. -/
structure Mirror where
  hub : RemoteHub := {}
  upgrades : Nat → Option Upgrade := fun _ => none
  wire : Nat → List Message := fun _ => []
  tab : Tab := {}
  next : Nat := 0

namespace Mirror

/-- What may happen. A socket may close on either side at any time. -/
inductive Action where
  | publish (event : String) (data : Option String)
  | newRun (run : String)
  | closeAll
  | closeSessions (ids : List String)
  /-- Some other browser's upgrade. -/
  | connect (session : String) (since : Nat) (run : String)
  /-- The page's upgrade. -/
  | «open» (session : String)
  | replay (id : Nat)
  | add (id : Nat)
  /-- `writePump` writes a message. -/
  | write (id : Nat)
  /-- `readPump` ends. -/
  | remove (id : Nat)
  /-- The page reads a message. -/
  | receive
  /-- The page's socket closes. -/
  | close
  /-- The page is loaded again. -/
  | reload
  deriving DecidableEq, Repr

/-- A socket past its upgrade. -/
def upgrade (session : String) (since : Nat) (run : String) (s : Mirror) : Mirror :=
  { s with
    upgrades := Function.update s.upgrades s.next (some ⟨⟨session, []⟩, since, run, false⟩)
    next := s.next + 1 }

/-- The replay of a handler, or its end when the channel is full. -/
def replay (id : Nat) (s : Mirror) : Mirror :=
  match s.upgrades id with
  | none => s
  | some u =>
    if u.welcomed then s
    else { s with
      upgrades := Function.update s.upgrades id
        ((u.client.welcome s.hub u.since u.run).map fun c => { u with client := c, welcomed := true }) }

/-- The addition of a handler's socket. -/
def add (id : Nat) (s : Mirror) : Mirror :=
  match s.upgrades id with
  | none => s
  | some u =>
    if u.welcomed then
      { s with upgrades := Function.update s.upgrades id none, hub := s.hub.add id u.client }
    else s

/-- One message from the channel of a member to its socket. -/
def write (id : Nat) (s : Mirror) : Mirror :=
  match s.hub.clients id with
  | some ⟨session, m :: ms⟩ =>
    { s with
      hub := s.hub.add id ⟨session, ms⟩, wire := Function.update s.wire id (s.wire id ++ [m]) }
  | _ => s

/-- The page reads from its socket. -/
def receive (s : Mirror) : Mirror :=
  match s.tab.socket with
  | none => s
  | some id =>
    match s.wire id with
    | [] => s
    | m :: ms => { s with wire := Function.update s.wire id ms, tab := s.tab.onMessage m }

/-- What happens. -/
def Action.act : Action → Mirror → Unit × Mirror
  | .publish event data, s => ((), { s with hub := s.hub.publish event data })
  | .newRun run, s => ((), { s with hub := s.hub.newRun run })
  | .closeAll, s => ((), { s with hub := s.hub.closeAll })
  | .closeSessions ids, s => ((), { s with hub := s.hub.closeSessions ids })
  | .connect session since run, s => ((), s.upgrade session since run)
  | .open session, s =>
    ((), { s.upgrade session s.tab.asks.1 s.tab.asks.2 with
      tab := { s.tab with socket := some s.next } })
  | .replay id, s => ((), s.replay id)
  | .add id, s => ((), s.add id)
  | .write id, s => ((), s.write id)
  | .remove id, s => ((), { s with hub := s.hub.remove id })
  | .receive, s => ((), s.receive)
  | .close, s => ((), { s with tab := { s.tab with socket := none } })
  | .reload, s => ((), { s with tab := {} })

/-- A page opens a socket when it has none. -/
def Action.Enabled (s : Mirror) : Action → Prop
  | .open _ => s.tab.socket = none
  | _ => True

instance (s : Mirror) (x : Action) : Decidable (x.Enabled s) := by
  cases x <;> unfold Action.Enabled <;> infer_instance

/-- The hub with its sockets, and a page. -/
def system : Labelled.System Mirror Action Unit where
  act := Action.act
  enabled x s := x.Enabled s

instance (x : Action) (s : Mirror) : Decidable (system.enabled x s) :=
  inferInstanceAs (Decidable (x.Enabled s))

end Mirror

/-! ## Sockets and the sessions they were opened under

A handler authorizes a session, upgrades, replays and joins the hub in steps of its own.
A call that ends sessions hands their ids to `CloseSessions` once it has let go of the
lock, and returns after that. -/

/-- The calls that tell of the sessions they end. -/
def Action.revokes : Action → Bool
  | .setPassword .. | .removeDevice .. | .forgetHost .. | .revokeSessions | .logout _ => true
  | _ => false

/-- The service, the hub with its sockets, and what the calls that have not returned are about to
close. -/
structure Sockets where
  service : Config := {}
  mirror : Mirror := {}
  closing : List (List String) := []

namespace Sockets

/-- What may happen. -/
inductive Action where
  /-- A call, up to its `notifyRevoked`. -/
  | call (x : Remote.Action)
  /-- `notifyRevoked`, after which the call returns. -/
  | close (ids : List String)
  /-- `handleWS` authorizes a request, and upgrades it. -/
  | upgrade (token : String) (since : Nat) (run : String)
  /-- A handler ends before its socket is added. -/
  | fail (id : Nat)
  /-- Anything else about the hub and its sockets. -/
  | socket (x : Mirror.Action)

/-- What a call is about to close. -/
def told (x : Remote.Action) : Outcome → Option (List String)
  | .revoked ids => if x.revokes then some ids else none
  | _ => none

variable (lib : Platform)

/-- What happens. -/
def Action.act : Action → Sockets → Outcome × Sockets
  | .call x, s =>
    let (o, service) := x.act lib s.service
    (o, { s with service, closing := (told x o).toList ++ s.closing })
  | .close ids, s =>
    (.done, { s with
      mirror := (Mirror.Action.closeSessions ids).act s.mirror |>.2
      closing := s.closing.erase ids })
  | .upgrade token since run, s =>
    let (o, service) := (Remote.Action.authorize token).act lib s.service
    match o with
    | .session id _ => (o, { s with service, mirror := s.mirror.upgrade id since run })
    | _ => (o, { s with service })
  | .fail id, s =>
    (.done, { s with mirror.upgrades := Function.update s.mirror.upgrades id none })
  | .socket x, s => (.done, { s with mirror := (x.act s.mirror).2 })

/-- A socket is opened by `upgrade` and revoked by `close`. -/
def opens : Mirror.Action → Bool
  | .connect .. | .open _ | .closeSessions _ => true
  | _ => false

/-- A check ends that is in flight, and a call returns that has ended sessions. -/
def Action.Enabled (s : Sockets) : Action → Prop
  | .call x => x.Enabled s.service
  | .close ids => ids ∈ s.closing
  | .socket x => opens x = false
  | _ => True

instance (s : Sockets) (x : Action) : Decidable (x.Enabled s) := by
  cases x <;> unfold Action.Enabled <;> infer_instance

/-- The service with its sockets. -/
def system : Labelled.System Sockets Action Outcome where
  act := Action.act lib
  enabled x s := x.Enabled s

instance (x : Action) (s : Sockets) : Decidable ((system lib).enabled x s) :=
  inferInstanceAs (Decidable (x.Enabled s))

/-- The call of the service an action is. -/
def Action.service : Action → Option Remote.Action
  | .call x => some x
  | .upgrade token _ _ => some (.authorize token)
  | _ => none

/-- The calls of a history. -/
abbrev calls (h : Labelled.History Sockets Action) : History :=
  Labelled.History.part Sockets.service Action.service h

/-- What a call draws is new. -/
def Fresh (h : Labelled.History Sockets Action) (x : Action) : Prop :=
  ∀ y ∈ x.service, Remote.Fresh lib (calls h) y

instance (h : Labelled.History Sockets Action) (x : Action) : Decidable (Fresh lib h x) :=
  inferInstanceAs (Decidable (∀ y ∈ x.service, Remote.Fresh lib (calls h) y))

end Sockets

end Konnekt.Remote
