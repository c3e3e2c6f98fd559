import Mathlib.Data.List.Range
import Mathlib.Logic.Function.Basic

/-!
# The event hub

Events are numbered, kept in a ring, and handed to the sockets that are members. A
socket that reconnects is sent what the ring still has of what it missed before it
becomes a member.
-/

namespace Konnekt.Remote

def remoteReplayCap : Nat := 2000
def remoteSendBuffer : Nat := 256

/-- `remoteFrame`, of an event. -/
structure Frame where
  seq : Nat
  event : String
  data : String
  deriving DecidableEq, Repr

/-- What goes over a socket: the hello, or an event. No event is named as the hello is, since the
tap leaves out every name that begins with `remote:`. -/
inductive Message where
  | hello (seq replayed : Nat) (gap : Bool) (run : String)
  | event (f : Frame)
  deriving DecidableEq, Repr

/-- `remoteClient`, with what is in its channel. -/
structure RemoteClient where
  session : String
  send : List Message := []
  deriving DecidableEq, Repr

/-- `remoteHub`. A socket is known by a number. -/
structure RemoteHub where
  cap : Nat := remoteReplayCap
  run : String := ""
  ring : List Frame := []
  seq : Nat := 0
  clients : Nat → Option RemoteClient := fun _ => none

/-- `queueEncoded`, unless the channel is full. -/
def RemoteClient.queue (m : Message) (c : RemoteClient) : Option RemoteClient :=
  if c.send.length < remoteSendBuffer then some { c with send := c.send ++ [m] } else none

namespace RemoteHub

/-- `newRun`. -/
def newRun (run : String) (h : RemoteHub) : RemoteHub := { h with run, ring := [] }

/-- `publish`, unless the data cannot be encoded. A member whose channel is full is dropped. -/
def publish (event : String) (data : Option String) (h : RemoteHub) : RemoteHub :=
  match data with
  | none => h
  | some data =>
    let frame : Frame := ⟨h.seq + 1, event, data⟩
    let ring := if h.cap ≤ h.ring.length then h.ring.drop 1 else h.ring
    { h with
      seq := h.seq + 1
      ring := ring ++ [frame]
      clients := fun id => (h.clients id).bind (RemoteClient.queue (.event frame)) }

theorem clients_publish (h : RemoteHub) (event data : String) (id : Nat) :
    (h.publish event (some data)).clients id =
      (h.clients id).bind (RemoteClient.queue (.event ⟨h.seq + 1, event, data⟩)) :=
  rfl

/-- `replay`: the frames after a number, and whether some are missing. -/
def replay (since : Nat) (run : String) (h : RemoteHub) : List Frame × Bool :=
  if since = 0 then ([], false)
  else if run = "" ∨ run ≠ h.run ∨ h.seq < since ∨ (since < h.seq ∧ h.ring = []) then ([], true)
  else if since = h.seq then ([], false)
  else (h.ring.filter (since < ·.seq), (h.ring.head?.any fun f => since + 1 < f.seq))

/-- `add`. -/
def add (id : Nat) (c : RemoteClient) (h : RemoteHub) : RemoteHub :=
  { h with clients := Function.update h.clients id (some c) }

/-- `remove`. -/
def remove (id : Nat) (h : RemoteHub) : RemoteHub :=
  { h with clients := Function.update h.clients id none }

/-- `closeAll`. -/
def closeAll (h : RemoteHub) : RemoteHub := { h with ring := [], clients := fun _ => none }

/-- `closeSessions`. -/
def closeSessions (ids : List String) (h : RemoteHub) : RemoteHub :=
  { h with clients := fun id => (h.clients id).filter (·.session ∉ ids) }

end RemoteHub

/-- The frames `handleWS` replays, if all of them fit the channel, and whether some are missing. -/
def RemoteHub.offer (since : Nat) (run : String) (h : RemoteHub) : List Frame × Bool :=
  if remoteSendBuffer < (h.replay since run).1.length + 1 then ([], true) else h.replay since run

/-- What `handleWS` queues before it adds the socket: the hello, and the replay. -/
def RemoteClient.welcome (h : RemoteHub) (since : Nat) (run : String) (c : RemoteClient) :
    Option RemoteClient :=
  let offer := h.offer since run
  (.hello h.seq offer.1.length offer.2 h.run :: offer.1.map .event).foldlM (fun c m => c.queue m) c

theorem send_of_queue {c c' : RemoteClient} {ms : List Message}
    (h : ms.foldlM (fun c m => c.queue m) c = some c') :
    c'.session = c.session ∧ c'.send = c.send ++ ms := by
  induction ms generalizing c with
  | nil =>
    cases h
    exact ⟨rfl, (List.append_nil _).symm⟩
  | cons m ms ih =>
    rw [List.foldlM_cons] at h
    obtain ⟨c₁, hqueue, h⟩ := Option.bind_eq_some_iff.1 h
    obtain ⟨hsession, hsend⟩ := ih h
    unfold RemoteClient.queue at hqueue
    split_ifs at hqueue
    cases hqueue
    exact ⟨hsession, hsend.trans (List.append_assoc _ _ _)⟩

/-- What a socket is welcomed with. -/
theorem send_of_welcome {hub : RemoteHub} {c c' : RemoteClient} {since : Nat} {run : String}
    (h : c.welcome hub since run = some c') :
    c'.session = c.session ∧ c'.send = c.send ++
      .hello hub.seq (hub.offer since run).1.length (hub.offer since run).2 hub.run ::
        (hub.offer since run).1.map .event :=
  send_of_queue h

/-! ## The ring -/

/-- Frames that are numbered one after the other and end with a number. -/
structure Latest (n : Nat) (fs : List Frame) : Prop where
  length : fs.length ≤ n
  seqs : fs.map Frame.seq = List.range' (n - fs.length + 1) fs.length

namespace Latest

variable {n : Nat} {fs : List Frame} {f : Frame}

theorem nil : Latest n [] := ⟨Nat.zero_le n, rfl⟩

theorem append (h : Latest n fs) (hf : f.seq = n + 1) : Latest (n + 1) (fs ++ [f]) := by
  have hlength := h.length
  refine ⟨?_, ?_⟩
  · rw [List.length_append, List.length_singleton]
    exact Nat.succ_le_succ hlength
  · have hfirst : n + 1 - (fs.length + 1) + 1 = n - fs.length + 1 := by omega
    have hlast : n - fs.length + 1 + 1 * fs.length = n + 1 := by omega
    rw [List.map_append, h.seqs, List.map_singleton, hf, List.length_append,
      List.length_singleton, List.range'_concat, hfirst, hlast]

theorem tail (h : Latest n (f :: fs)) : Latest n fs := by
  have hlength := h.length
  have hseqs := h.seqs
  rw [List.length_cons] at hlength hseqs
  rw [List.map_cons, List.range'_succ] at hseqs
  obtain ⟨_, hseqs⟩ := List.cons.inj hseqs
  refine ⟨by omega, ?_⟩
  have hfirst : n - (fs.length + 1) + 1 + 1 = n - fs.length + 1 := by omega
  rw [hseqs, hfirst]

/-- The number of the first of them. -/
theorem head (h : Latest n (f :: fs)) : f.seq = n - fs.length := by
  have hlength := h.length
  have hseqs := h.seqs
  rw [List.length_cons] at hlength hseqs
  rw [List.map_cons, List.range'_succ] at hseqs
  obtain ⟨hfirst, _⟩ := List.cons.inj hseqs
  omega

/-- Those after a number, when the first of them is not past it. -/
theorem filter (h : Latest n fs) {since : Nat} (hle : since ≤ n) (hne : since < n → fs ≠ [])
    (hfirst : ∀ f ∈ fs.head?, f.seq ≤ since + 1) :
    (fs.filter (since < ·.seq)).map Frame.seq = List.range' (since + 1) (n - since) := by
  induction fs with
  | nil =>
    have hn : n = since := Nat.le_antisymm (Nat.not_lt.1 fun hlt => hne hlt rfl) hle
    rw [hn, Nat.sub_self]
    rfl
  | cons f fs ih =>
    have hseq := h.head
    have hlength := h.length
    rw [List.length_cons] at hlength
    have hf := hfirst f rfl
    by_cases hlt : since < f.seq
    · -- All of them are past the number.
      have hall : (f :: fs).filter (since < ·.seq) = f :: fs := by
        refine List.filter_eq_self.2 fun g hg => decide_eq_true ?_
        have hmem := List.mem_map_of_mem (f := Frame.seq) hg
        rw [h.seqs, List.mem_range'_1, List.length_cons] at hmem
        omega
      rw [hall, h.seqs, List.length_cons]
      congr 1 <;> omega
    · rw [List.filter_cons_of_neg (by simpa using hlt)]
      refine ih h.tail (fun hlt' hnil => ?_) fun g hg => ?_
      · rw [hnil, List.length_nil] at hseq
        omega
      · obtain ⟨gs, rfl⟩ : ∃ gs, fs = g :: gs := by
          cases fs with
          | nil => cases hg
          | cons g' gs =>
            cases hg
            exact ⟨gs, rfl⟩
        have hg' := h.tail.head
        rw [List.length_cons] at hseq hlength
        omega

end Latest

namespace RemoteHub

variable {h : RemoteHub}

theorem latest_publish (hring : Latest h.seq h.ring) (event : String) (data : Option String) :
    Latest (h.publish event data).seq (h.publish event data).ring := by
  cases data with
  | none => exact hring
  | some data =>
    refine Latest.append ?_ rfl
    split_ifs
    · cases hfs : h.ring with
      | nil => exact Latest.nil
      | cons f fs =>
        rw [hfs] at hring
        exact hring.tail
    · exact hring

end RemoteHub

end Konnekt.Remote
