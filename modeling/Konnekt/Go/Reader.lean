import Mathlib.Data.List.Basic

/-!
# Reading a file in pieces

A read gives at least one byte and at most as many as are asked for, and
`io.ReadFull` goes on until it has them all. How the reads are cut has no effect
on what is read: one piece after the other, all of the same length but the last.
-/

namespace Go

/-- A file that is being read: what is left of it, how much more than one byte each of the next
reads gives at most, and whether an error stands at the end of it. -/
structure Reader where
  rest : List UInt8
  cuts : List Nat
  broken : Bool
  deriving DecidableEq, Repr

/-- How a piece ends. -/
inductive ReadEnd where
  | full | eof | unexpectedEOF | failed
  deriving DecidableEq, Repr

namespace Reader

/-- One read of at most so many bytes. -/
def read (n : Nat) (r : Reader) : List UInt8 × Reader :=
  let k := min n (match r.cuts with
    | [] => n
    | cut :: _ => cut + 1)
  (r.rest.take k, { r with rest := r.rest.drop k, cuts := r.cuts.tail })

theorem read_eq (n : Nat) (r : Reader) : ∃ k, k ≤ n ∧ (n ≠ 0 → 0 < k) ∧
    r.read n = (r.rest.take k, ⟨r.rest.drop k, r.cuts.tail, r.broken⟩) := by
  refine ⟨_, Nat.min_le_left _ _, fun hn => ?_, rfl⟩
  split <;> omega

theorem length_read_pos {n : Nat} {r : Reader} (hn : n ≠ 0) (hrest : r.rest ≠ []) :
    0 < (r.read n).1.length := by
  obtain ⟨k, -, hk, heq⟩ := read_eq n r
  have hlength := List.length_pos_iff.2 hrest
  rw [heq, List.length_take]
  exact Nat.lt_min.2 ⟨hk hn, hlength⟩

/-- `io.ReadFull`. -/
def readFull (n : Nat) (r : Reader) : List UInt8 × ReadEnd × Reader :=
  if n = 0 then ([], .full, r)
  else if r.rest = [] then ([], if r.broken then .failed else .eof, r)
  else
    let (data, next) := r.read n
    let (more, stop, last) := readFull (n - (r.read n).1.length) next
    (data ++ more, if stop = .eof then .unexpectedEOF else stop, last)
termination_by n
decreasing_by
  have := length_read_pos ‹¬n = 0› ‹¬r.rest = []›
  omega

/-- How a piece of so many bytes ends. -/
def endOf (n : Nat) (r : Reader) : ReadEnd :=
  if n ≤ r.rest.length then .full
  else if r.broken then .failed
  else if r.rest = [] then .eof
  else .unexpectedEOF

theorem readFull_eq (n : Nat) (r : Reader) : ∃ cuts,
    r.readFull n = (r.rest.take n, r.endOf n, ⟨r.rest.drop n, cuts, r.broken⟩) := by
  fun_induction readFull n r with
  | case1 r => exact ⟨r.cuts, by simp [endOf]⟩
  | case2 n r hn hrest =>
    refine ⟨r.cuts, ?_⟩
    obtain ⟨rest, cuts, broken⟩ := r
    obtain rfl : rest = [] := hrest
    simp [endOf, hn]
  | case3 n r hn hrest data next hread more stop last hmore ih =>
    obtain ⟨k, hkn, hk, heq⟩ := read_eq n r
    have hlength := List.length_pos_iff.2 hrest
    obtain ⟨rfl, rfl⟩ := Prod.mk.inj (hread.symm.trans heq)
    obtain ⟨cuts, ih⟩ := ih
    obtain ⟨rfl, hrest'⟩ := Prod.mk.inj (hmore.symm.trans ih)
    obtain ⟨rfl, rfl⟩ := Prod.mk.inj hrest'
    have hdata : (r.read n).1.length = min k r.rest.length := by
      rw [heq, List.length_take]
    rw [hdata]
    -- The file ends in this read, or what is left of the piece is read from the rest.
    rcases Nat.lt_or_ge r.rest.length k with hend | hmore
    · have hle : r.rest.length ≤ k := Nat.le_of_lt hend
      have hle' : r.rest.length ≤ n := Nat.le_trans hle hkn
      rw [Nat.min_eq_right hle, List.drop_eq_nil_of_le hle, List.take_nil, List.append_nil,
        List.drop_nil, List.take_of_length_le hle, List.take_of_length_le hle',
        List.drop_eq_nil_of_le hle']
      have hlt : ¬ n ≤ r.rest.length := by omega
      have hleft : n - r.rest.length ≠ 0 := by omega
      cases hbroken : r.broken <;> simp [endOf, hbroken, hrest, hlt, hleft]
    · rw [Nat.min_eq_left hmore, ← List.take_add, List.drop_drop, Nat.add_sub_cancel' hkn]
      have hiff : n - k ≤ r.rest.length - k ↔ n ≤ r.rest.length := by omega
      have hends : endOf n r = if endOf (n - k) ⟨r.rest.drop k, r.cuts.tail, r.broken⟩ = .eof then
          .unexpectedEOF else endOf (n - k) ⟨r.rest.drop k, r.cuts.tail, r.broken⟩ := by
        unfold endOf
        rw [List.length_drop]
        split
        · next hfull => rw [if_pos (hiff.2 hfull), if_neg (by decide)]
        · next hshort =>
          rw [if_neg (mt hiff.1 hshort)]
          cases hbroken : r.broken <;> simp
      rw [hends]
      exact ⟨cuts, rfl⟩

/-- A full piece leaves less to read. -/
theorem rest_readFull (n : Nat) (r : Reader) : (r.readFull n).2.1 = .full →
    (r.readFull n).2.2.rest.length + n = r.rest.length := by
  obtain ⟨cuts, heq⟩ := readFull_eq n r
  rw [heq]
  intro hfull
  have hle : n ≤ r.rest.length := by
    by_contra hlt
    change endOf n r = .full at hfull
    rw [endOf, if_neg hlt] at hfull
    split_ifs at hfull
  change (r.rest.drop n).length + n = r.rest.length
  rw [List.length_drop, Nat.sub_add_cancel hle]

end Reader

/-! ## Pieces -/

variable {α : Type}

/-- A list cut into pieces of a length, as far as it goes. -/
def pieces (n : Nat) (l : List α) : List (List α) :=
  if n = 0 ∨ l = [] then [] else l.take n :: pieces n (l.drop n)
termination_by l.length
decreasing_by
  have hnot : ¬(n = 0 ∨ l = []) := ‹_›
  have hlength := List.length_pos_iff.2 (mt Or.inr hnot)
  rw [List.length_drop]
  omega

@[simp] theorem pieces_nil (n : Nat) : pieces n ([] : List α) = [] := by
  rw [pieces, if_pos (.inr rfl)]

theorem pieces_of_ne {n : Nat} {l : List α} (hn : 0 < n) (hl : l ≠ []) :
    pieces n l = l.take n :: pieces n (l.drop n) := by
  rw [pieces, if_neg (by simp [hl, Nat.ne_of_gt hn])]

theorem flatten_pieces {n : Nat} (hn : 0 < n) (l : List α) : (pieces n l).flatten = l := by
  fun_induction pieces n l with
  | case1 l h =>
    obtain rfl := h.resolve_left (Nat.ne_of_gt hn)
    rfl
  | case2 l h ih => rw [List.flatten_cons, ih, List.take_append_drop]

theorem mem_pieces {n : Nat} {l p : List α} (h : p ∈ pieces n l) : p ≠ [] ∧ p.length ≤ n := by
  fun_induction pieces n l with
  | case1 l hnil => cases h
  | case2 l hne ih =>
    obtain ⟨hn, hl⟩ := not_or.1 hne
    rcases List.mem_cons.1 h with rfl | h
    · exact ⟨by simp [hn, hl], List.length_take_le n l⟩
    · exact ih h

/-- All pieces but the last have the whole length. -/
theorem length_of_mem_dropLast_pieces {n : Nat} {l p : List α} (h : p ∈ (pieces n l).dropLast) :
    p.length = n := by
  fun_induction pieces n l with
  | case1 l hnil => cases h
  | case2 l hne ih =>
    cases hrest : pieces n (l.drop n) with
    | nil =>
      rw [hrest] at h
      cases h
    | cons q qs =>
      rw [hrest, List.dropLast_cons_cons, ← hrest, List.mem_cons] at h
      rcases h with rfl | h
      · rw [List.length_take, Nat.min_eq_left]
        by_contra hlt
        rw [List.drop_eq_nil_of_le (by omega), pieces_nil] at hrest
        cases hrest
      · exact ih h

end Go
