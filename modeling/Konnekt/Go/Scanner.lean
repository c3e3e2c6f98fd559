import Mathlib.Data.List.Basic

/-!
# Scanning a stream

`bufio.Scanner` with a buffer that does not grow: a split function is given what is
buffered and says how much of it to consume and whether that is a token. A result without
a token makes the scanner read again, and ends the scan once the input has ended.
-/

namespace Go

variable {α σ : Type}

/-- `bufio.SplitFunc` of a closure with state: from the buffered data and whether the input has
ended, how much to consume and the token, if there is one. -/
abbrev SplitFunc (σ α : Type) := σ → List α → Bool → (Nat × Option (List α)) × σ

/-- `bufio.Scanner`: the buffered data starts at an offset of the buffer, and the reader has yet
to deliver the rest of the stream. -/
structure Scanner (σ α : Type) where
  start : Nat := 0
  data : List α := []
  eof : Bool := false
  split : σ
  rest : List α
  reads : Nat := 0
  empties : Nat := 0

namespace Scanner

/-- How a scan ends. -/
inductive Stop where
  | done | tooLong | advanceTooFar | noProgress
  deriving DecidableEq, Repr

/-- One turn of the scanner's loop. -/
inductive Turn (σ α : Type) where
  | token (t : List α) (s : Scanner σ α)
  | again (s : Scanner σ α)
  | stop (r : Stop)

section

variable (capacity : Nat) (sizes : Nat → Nat)

/-- Data is shifted to the front of the buffer when space is needed or half of it is free. -/
def shift (s : Scanner σ α) : Scanner σ α :=
  if 0 < s.start ∧ (s.start + s.data.length = capacity ∨ capacity / 2 < s.start) then
    { s with start := 0 }
  else s

/-- Read more: at most what fits, and at least one element while the stream lasts; the end of the
stream is a read of its own. -/
def fill (s : Scanner σ α) : Turn σ α :=
  if s.eof then .stop .done
  else
    let s := s.shift capacity
    if s.start + s.data.length = capacity then .stop .tooLong
    else if s.rest = [] then .again { s with eof := true, reads := s.reads + 1 }
    else
      let n := min (capacity - (s.start + s.data.length)) (sizes s.reads + 1)
      .again { s with data := s.data ++ s.rest.take n, rest := s.rest.drop n,
                      reads := s.reads + 1, empties := 0 }

def turn (f : SplitFunc σ α) (s : Scanner σ α) : Turn σ α :=
  if s.data = [] ∧ s.eof = false then s.fill capacity sizes
  else
    let ((advance, token), split) := f s.split s.data s.eof
    if s.data.length < advance then .stop .advanceTooFar
    else
      let s := { s with start := s.start + advance, data := s.data.drop advance, split := split }
      match token with
      | none => s.fill capacity sizes
      | some t =>
        if s.eof = false ∨ 0 < advance then .token t { s with empties := 0 }
        else if 100 ≤ s.empties then .stop .noProgress
        else .token t { s with empties := s.empties + 1 }

/-- The tokens of so many turns, and how the scan ended if it did. -/
def scan (f : SplitFunc σ α) : Nat → Scanner σ α → List (List α) × Option Stop
  | 0, _ => ([], none)
  | n + 1, s =>
    match s.turn capacity sizes f with
    | .token t s => (t :: (scan f n s).1, (scan f n s).2)
    | .again s => scan f n s
    | .stop r => ([], some r)

end

/-! ## Soundness -/

/-- What a split function must satisfy to give the tokens that `tokens` says are still in the
stream: `Inv` holds of the states it goes through, and `Waits` where it has asked for more. -/
structure Sound (capacity : Nat) (f : SplitFunc σ α) (tokens : σ → List α → List (List α))
    (Inv : σ → Prop) (Waits : σ → List α → Prop) : Prop where
  empty : ∀ st, Waits st []
  inv : ∀ {st data eof res st'}, Inv st → f st data eof = (res, st') → Inv st'
  token : ∀ {st data eof advance t st'}, Inv st → data ≠ [] → data.length ≤ capacity →
    f st data eof = ((advance, some t), st') → 0 < advance ∧ advance ≤ data.length ∧
      ∀ more, (eof = true → more = []) →
        tokens st (data ++ more) = t :: tokens st' (data.drop advance ++ more)
  asks : ∀ {st data advance st'}, Inv st → data ≠ [] → data.length ≤ capacity →
    f st data false = ((advance, none), st') →
    advance ≤ data.length ∧ data.length - advance < capacity ∧ Waits st' (data.drop advance) ∧
      ∀ more, tokens st (data ++ more) = tokens st' (data.drop advance ++ more)
  last : ∀ {st data advance t st'}, Inv st → Waits st data →
    f st data true = ((advance, t), st') →
    match t with
    | some _ => data ≠ [] ∧ Waits st' (data.drop advance)
    | none => advance ≤ data.length ∧ tokens st data = []

/-- What holds between two turns. -/
structure Fits (capacity : Nat) (Inv : σ → Prop) (Waits : σ → List α → Prop)
    (s : Scanner σ α) : Prop where
  inv : Inv s.split
  room : s.start + s.data.length ≤ capacity
  ended : s.eof = true → s.rest = [] ∧ Waits s.split s.data

/-- The turns that a scan may still take. -/
def budget (s : Scanner σ α) : Nat :=
  2 * s.rest.length + s.data.length + (if s.eof then 0 else 1)

section

variable {capacity : Nat} {sizes : Nat → Nat} {f : SplitFunc σ α}
  {tokens : σ → List α → List (List α)} {Inv : σ → Prop} {Waits : σ → List α → Prop}

theorem shift_split (s : Scanner σ α) : (s.shift capacity).split = s.split := by
  unfold shift
  split <;> rfl

theorem shift_data (s : Scanner σ α) : (s.shift capacity).data = s.data := by
  unfold shift
  split <;> rfl

theorem shift_rest (s : Scanner σ α) : (s.shift capacity).rest = s.rest := by
  unfold shift
  split <;> rfl

theorem shift_eof (s : Scanner σ α) : (s.shift capacity).eof = s.eof := by
  unfold shift
  split <;> rfl

/-- After the shift there is room for more unless the data fills the buffer. -/
theorem shift_room {s : Scanner σ α} (h : s.start + s.data.length ≤ capacity)
    (hdata : s.data.length < capacity) :
    (s.shift capacity).start + (s.shift capacity).data.length < capacity := by
  rw [shift_data]
  unfold shift
  split
  · simpa using hdata
  · rename_i hnot
    omega

/-- A read takes what it delivers from the rest of the stream to the data. -/
theorem fill_eq_again (sizes : Nat → Nat) {s : Scanner σ α} (heof : s.eof = false)
    (hroom : s.start + s.data.length ≤ capacity) (hdata : s.data.length < capacity)
    (hinv : Inv s.split) (hwaits : Waits s.split s.data) :
    ∃ s', s.fill capacity sizes = .again s' ∧ s'.split = s.split ∧
      s'.data ++ s'.rest = s.data ++ s.rest ∧ s'.Fits capacity Inv Waits ∧ s'.budget < s.budget := by
  have hshift := shift_room hroom hdata
  rw [fill, if_neg (by simp [heof])]
  simp only [if_neg (Nat.ne_of_lt hshift)]
  split
  · rename_i hrest
    rw [shift_rest] at hrest
    refine ⟨_, rfl, shift_split s, ?_, ⟨?_, ?_, ?_⟩, ?_⟩
    · rw [shift_data, shift_rest]
    · rwa [shift_split]
    · exact Nat.le_of_lt hshift
    · intro _
      exact ⟨by rw [shift_rest, hrest], by rwa [shift_split, shift_data]⟩
    · simp [budget, shift_rest, shift_data, heof]
  · rename_i hrest
    rw [shift_rest] at hrest
    rw [shift_data] at hshift
    refine ⟨_, rfl, shift_split s, ?_, ⟨?_, ?_, ?_⟩, ?_⟩
    · rw [shift_data, shift_rest, List.append_assoc, List.take_append_drop]
    · rwa [shift_split]
    · simp only [shift_data, List.length_append, List.length_take]
      omega
    · intro h
      rw [shift_eof, heof] at h
      exact absurd h Bool.false_ne_true
    · have hpos : 0 < s.rest.length := List.length_pos_of_ne_nil hrest
      simp only [budget, shift_rest, shift_data, shift_eof, heof, List.length_append,
        List.length_take, List.length_drop]
      omega

/-- A scan with a sound split function gives the tokens of the stream, whatever the reads
deliver, and ends because the stream does. -/
theorem scan_eq (hf : Sound capacity f tokens Inv Waits) (hcapacity : 0 < capacity) :
    ∀ (n : Nat) (s : Scanner σ α), s.Fits capacity Inv Waits → s.budget < n →
      s.scan capacity sizes f n = (tokens s.split (s.data ++ s.rest), some .done) := by
  intro n
  induction n with
  | zero => exact fun s _ h => absurd h (Nat.not_lt_zero _)
  | succ n ih =>
    intro s hs hn
    -- A turn that reads leaves the same tokens to give.
    have reads : ∀ s' : Scanner σ α, s'.eof = false → s'.start + s'.data.length ≤ capacity →
        s'.data.length < capacity → Inv s'.split → Waits s'.split s'.data → s'.budget ≤ s.budget →
        tokens s'.split (s'.data ++ s'.rest) = tokens s.split (s.data ++ s.rest) →
        s.turn capacity sizes f = s'.fill capacity sizes →
        s.scan capacity sizes f (n + 1) = (tokens s.split (s.data ++ s.rest), some .done) := by
      intro s' heof hroom hdata hinv hwaits hbudget htokens hturn
      obtain ⟨s'', hfill, hsplit, happend, hfits, hless⟩ :=
        fill_eq_again sizes heof hroom hdata hinv hwaits
      rw [scan, hturn, hfill]
      rw [← htokens, ← hsplit, ← happend]
      exact ih s'' hfits (by omega)
    by_cases hempty : s.data = [] ∧ s.eof = false
    · refine reads s hempty.2 hs.room ?_ hs.inv ?_ (Nat.le_refl _) rfl ?_
      · simpa [hempty.1] using hcapacity
      · rw [hempty.1]
        exact hf.empty s.split
      · rw [turn, if_pos hempty]
    · obtain ⟨advance, token, st, hres⟩ : ∃ advance token st,
          f s.split s.data s.eof = ((advance, token), st) := ⟨_, _, _, rfl⟩
      have hlength : s.data.length ≤ capacity := by
        have hroom := hs.room
        omega
      cases token with
      | none =>
        cases heof : s.eof with
        | false =>
          have hdata : s.data ≠ [] := fun h => hempty ⟨h, heof⟩
          rw [heof] at hres
          obtain ⟨hle, hfree, hwaits, htokens⟩ := hf.asks hs.inv hdata hlength hres
          refine reads { s with start := s.start + advance, data := s.data.drop advance,
                                split := st }
            heof ?_ ?_ (hf.inv hs.inv hres) hwaits ?_ (htokens s.rest).symm ?_
          · have hroom := hs.room
            simp only [List.length_drop]
            omega
          · simpa only [List.length_drop] using hfree
          · simp only [budget, List.length_drop]
            omega
          · rw [turn, if_neg hempty, heof, hres]
            simp only [if_neg (Nat.not_lt.mpr hle)]
        | true =>
          obtain ⟨hrest, hwaits⟩ := hs.ended heof
          rw [heof] at hres
          obtain ⟨hle, hnone⟩ := hf.last hs.inv hwaits hres
          rw [scan, turn, if_neg hempty, heof, hres, hrest, List.append_nil, hnone]
          simp only [if_neg (Nat.not_lt.mpr hle), fill, if_true]
      | some t =>
        have hdata : s.data ≠ [] := by
          cases heof : s.eof with
          | false => exact fun h => hempty ⟨h, heof⟩
          | true =>
            rw [heof] at hres
            exact (hf.last hs.inv (hs.ended heof).2 hres).1
        obtain ⟨hpos, hle, htokens⟩ := hf.token hs.inv hdata hlength hres
        have hturn : s.turn capacity sizes f = .token t
            { s with start := s.start + advance, data := s.data.drop advance, split := st,
                     empties := 0 } := by
          rw [turn, if_neg hempty, hres]
          simp only [if_neg (Nat.not_lt.mpr hle), hpos, or_true, if_true]
        have hfits : Fits capacity Inv Waits
            { s with start := s.start + advance, data := s.data.drop advance, split := st,
                     empties := 0 } := by
          refine ⟨hf.inv hs.inv hres, ?_, ?_⟩
          · have hroom := hs.room
            simp only [List.length_drop]
            omega
          · intro heof
            rw [show s.eof = true from heof] at hres
            exact ⟨(hs.ended heof).1, (hf.last hs.inv (hs.ended heof).2 hres).2⟩
        have hless : budget { s with start := s.start + advance, data := s.data.drop advance,
                                     split := st, empties := 0 } < n := by
          have hlength := List.length_pos_of_ne_nil hdata
          simp only [budget, List.length_drop] at hn ⊢
          omega
        rw [scan, hturn]
        dsimp only
        rw [ih _ hfits hless, htokens s.rest fun heof => (hs.ended heof).1]

/-- A scan of a whole stream. -/
theorem scan_stream (sizes : Nat → Nat) (hf : Sound capacity f tokens Inv Waits)
    (hcapacity : 0 < capacity) {st : σ} (hst : Inv st)
    (stream : List α) {n : Nat} (hn : 2 * stream.length + 1 < n) :
    scan capacity sizes f n { split := st, rest := stream } = (tokens st stream, some .done) := by
  refine scan_eq hf hcapacity n _ ⟨hst, Nat.zero_le _, fun h => absurd h Bool.false_ne_true⟩ ?_
  simpa [budget] using hn

end

end Scanner

end Go
