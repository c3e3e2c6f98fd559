import Mathlib
import Konnekt.Go.Map
import Konnekt.Run.Labelled

/-!
# Approvals on the desktop

An admin call waits for the desktop's answer, for a timer or for its own request to end,
whichever its select takes. The desktop's answer takes the entry under the lock and sends
on the entry's channel after it.
-/

namespace Konnekt.Remote

open Go

/-- A minute. -/
def remoteApprovalTimeout : Nat := 60 * 10 ^ 9
def remoteMaxApprovals : Nat := 4

def errRemoteApprovalDenied : String := "declined on the desktop"
def errRemoteApprovalTimeout : String := "nobody answered on the desktop"
def errRemoteApprovalBusy : String :=
  "another request from this device is already waiting on the desktop"
def errRemoteApprovalFull : String := "too many requests are waiting on the desktop"
def errRemoteApprovalGone : String := "that request is no longer waiting"
def errRemoteApprovalCanceled : String := "the request was withdrawn"

structure RemoteApprovalRequest where
  device : String
  method : String
  reason : String
  args : List String
  deriving DecidableEq, Repr

/-- `remoteApproval`. Its channel is kept with the `Ask` that made it, which is known by a number. -/
structure RemoteApproval where
  ask : Nat
  id : String
  req : RemoteApprovalRequest
  requested : Nat
  deriving DecidableEq, Repr

/-- How far an `Ask` is: its entry is in the map, it is in the select with a timer, its select has
taken a case, it has returned. The outcome is an error or nil. -/
inductive Asking where
  | asked
  | waiting (deadline : Nat)
  | leaving (outcome : Option String)
  | returned (outcome : Option String)
  deriving DecidableEq, Repr

/-- An `Ask` that was not refused at once, with what its channel holds. -/
structure AskCall where
  id : String
  phase : Asking := .asked
  answer : Option Bool := none
  deriving DecidableEq, Repr

namespace AskCall

/-- The timer of an `Ask` is started. -/
def wait (now : Nat) (c : AskCall) : Option AskCall :=
  match c.phase with
  | .asked => some { c with phase := .waiting (now + remoteApprovalTimeout) }
  | _ => none

/-- The answer is received. -/
def hear (c : AskCall) : Option AskCall :=
  match c.phase, c.answer with
  | .waiting _, some allowed =>
    some { c with
      phase := .leaving (if allowed then none else some errRemoteApprovalDenied), answer := none }
  | _, _ => none

/-- The timer has fired. -/
def expire (now : Nat) (c : AskCall) : Option AskCall :=
  match c.phase with
  | .waiting deadline =>
    if deadline ≤ now then some { c with phase := .leaving (some errRemoteApprovalTimeout) }
    else none
  | _ => none

/-- The context is done. -/
def cancel (c : AskCall) : Option AskCall :=
  match c.phase with
  | .waiting _ => some { c with phase := .leaving (some errRemoteApprovalCanceled) }
  | _ => none

end AskCall

/-- An `Answer` that found its entry, and whether it has sent and returned. -/
structure AnswerCall where
  ask : Nat
  allow : Bool
  sent : Bool := false
  deriving DecidableEq, Repr

/-- `RemoteApprovals`, the clock, and the calls on it. -/
structure RemoteApprovals where
  pending : GoMap RemoteApproval := ∅
  now : Nat := 0
  asks : Nat → Option AskCall := fun _ => none
  asked : Nat := 0
  answers : Nat → Option AnswerCall := fun _ => none
  answered : Nat := 0

/-- What a step returns to the caller of the call it is of. -/
inductive Reply where
  | going
  | returned (err : Option String)
  deriving DecidableEq, Repr

namespace RemoteApprovals

/-- What may happen. -/
inductive Action where
  | tick (elapsed : Nat)
  /-- `Ask`, up to the map. -/
  | ask (id : Except String String) (req : RemoteApprovalRequest)
  /-- The timer starts. -/
  | wait (n : Nat)
  /-- The select takes the answer. -/
  | hear (n : Nat)
  /-- The select takes the timer. -/
  | expire (n : Nat)
  /-- The select takes the context. -/
  | cancel (n : Nat)
  /-- `Ask` deletes its entry and returns. -/
  | leave (n : Nat)
  /-- `Answer`, up to the channel. -/
  | answer (id : String) (allow : Bool)
  /-- `Answer` sends and returns. -/
  | send (m : Nat)
  deriving Repr

/-- An `Ask` further on. -/
def setAsk (n : Nat) (c : AskCall) (s : RemoteApprovals) : RemoteApprovals :=
  { s with asks := Function.update s.asks n (some c) }

/-- The first half of `Ask`. -/
def ask (id : Except String String) (req : RemoteApprovalRequest) (s : RemoteApprovals) :
    Reply × RemoteApprovals :=
  match id with
  | .error err => (.returned (some err), s)
  | .ok id =>
    if s.pending.values.any (·.req.device = req.device) then
      (.returned (some errRemoteApprovalBusy), s)
    else if remoteMaxApprovals ≤ s.pending.values.length then
      (.returned (some errRemoteApprovalFull), s)
    else
      (.going, { s.setAsk s.asked { id } with
        pending := s.pending.insert id ⟨s.asked, id, req, s.now⟩
        asked := s.asked + 1 })

/-- The first half of `Answer`. -/
def answer (id : String) (allow : Bool) (s : RemoteApprovals) : Reply × RemoteApprovals :=
  match s.pending.lookup id with
  | none => (.returned (some errRemoteApprovalGone), s)
  | some e =>
    (.going, { s with
      pending := s.pending.erase id
      answers := Function.update s.answers s.answered (some ⟨e.ask, allow, false⟩)
      answered := s.answered + 1 })

/-- One step of an `Ask` from one phase to the next. -/
def step (n : Nat) (next : AskCall → Option AskCall) (s : RemoteApprovals) : RemoteApprovals :=
  match (s.asks n).bind next with
  | none => s
  | some c => s.setAsk n c

/-- The second half of `Ask`. -/
def leave (n : Nat) (s : RemoteApprovals) : Reply × RemoteApprovals :=
  match s.asks n with
  | some ⟨id, .leaving outcome, answer⟩ =>
    (.returned outcome,
      { s.setAsk n ⟨id, .returned outcome, answer⟩ with pending := s.pending.erase id })
  | _ => (.going, s)

/-- The second half of `Answer`, unless the channel is full. -/
def send (m : Nat) (s : RemoteApprovals) : Reply × RemoteApprovals :=
  match s.answers m with
  | some ⟨n, allow, false⟩ =>
    match s.asks n with
    | some ⟨id, phase, none⟩ =>
      (.returned none, { s.setAsk n ⟨id, phase, some allow⟩ with
        answers := Function.update s.answers m (some ⟨n, allow, true⟩) })
    | _ => (.going, s)
  | _ => (.going, s)

/-- What happens. -/
def Action.act : Action → RemoteApprovals → Reply × RemoteApprovals
  | .tick elapsed, s => (.going, { s with now := s.now + elapsed })
  | .ask id req, s => s.ask id req
  | .wait n, s => (.going, s.step n (AskCall.wait s.now))
  | .hear n, s => (.going, s.step n AskCall.hear)
  | .expire n, s => (.going, s.step n (AskCall.expire s.now))
  | .cancel n, s => (.going, s.step n AskCall.cancel)
  | .leave n, s => s.leave n
  | .answer id allow, s => s.answer id allow
  | .send m, s => s.send m

/-- The approvals with all calls on them. A call whose turn has not come stays where it is. -/
def system : Labelled.System RemoteApprovals Action Reply where
  act := Action.act
  enabled _ _ := True

instance (x : Action) (s : RemoteApprovals) : Decidable (system.enabled x s) :=
  inferInstanceAs (Decidable True)

end RemoteApprovals

end Konnekt.Remote
