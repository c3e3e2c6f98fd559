import Mathlib.Data.List.Chain

/-!
# Notices delivered late

A section under a lock makes a notice that switches a key on or off, and the notice
is delivered after the lock is released. Notices about one key that say the same may
overtake each other. When none overtakes one that says the opposite, what has been
delivered alternates as it was made, and in the end leaves what was made last.
-/

namespace Notices

variable {ν κ : Type} [DecidableEq κ]

/-- How notices are read: the key each is about, whether it switches it on or off, and whether it
takes part in the alternation of its key. -/
structure Reading (ν κ : Type) where
  key : ν → κ
  on : ν → Bool
  counts : ν → Bool

variable {R : Reading ν κ} {k : κ} {n : ν} {pre post l : List ν}

/-- What notices delivered one after the other make of a key. -/
def settle (R : Reading ν κ) (k : κ) (now : Bool) (l : List ν) : Bool :=
  l.foldl (fun b n => if R.key n = k then R.on n else b) now

/-- A notice overtakes none that says the opposite. -/
def InTurn (R : Reading ν κ) (pre : List ν) (n : ν) : Prop :=
  ∀ m ∈ pre, R.key m = R.key n → R.on m = R.on n

/-- The switches of a key, as far as they count. -/
def switches (R : Reading ν κ) (k : κ) (l : List ν) : List Bool :=
  (l.filter fun n => decide (R.key n = k) && R.counts n).map R.on

/-- On and off in turn, on first. -/
def Alternates (l : List Bool) : Prop := l.head? ≠ some false ∧ l.IsChain (· ≠ ·)

/-! ## What is left in the end -/

theorem settle_append (now : Bool) (l l' : List ν) :
    settle R k now (l ++ l') = settle R k (settle R k now l) l' := by
  rw [settle, List.foldl_append]
  rfl

theorem settle_cons (now : Bool) (n : ν) (l : List ν) :
    settle R k now (n :: l) = settle R k (if R.key n = k then R.on n else now) l := by
  rw [settle, List.foldl_cons]
  rfl

/-- Notices that say what is so already change nothing. -/
theorem settle_of_same {now : Bool} (h : ∀ m ∈ l, R.key m = k → R.on m = now) :
    settle R k now l = now := by
  induction l with
  | nil => rfl
  | cons m l ih =>
    obtain ⟨hm, hl⟩ := List.forall_mem_cons.1 h
    rw [settle_cons]
    by_cases hkey : R.key m = k
    · rw [if_pos hkey, hm hkey]
      exact ih hl
    · rw [if_neg hkey]
      exact ih hl

/-- A notice delivered in its turn leaves the same in the end. -/
theorem settle_of_inTurn (h : InTurn R pre n) (now : Bool) :
    settle R k (settle R k now [n]) (pre ++ post) = settle R k now (pre ++ n :: post) := by
  rw [settle_append, settle_append, settle_cons, settle_cons (settle R k now pre)]
  by_cases hkey : R.key n = k
  · have hsame : settle R k (R.on n) pre = R.on n :=
      settle_of_same fun m hm hk => h m hm (hk.trans hkey.symm)
    rw [if_pos hkey, if_pos hkey]
    exact congrArg (settle R k · post) hsame
  · rw [if_neg hkey, if_neg hkey]
    rfl

/-! ## Alternation -/

theorem switches_append (l l' : List ν) :
    switches R k (l ++ l') = switches R k l ++ switches R k l' := by
  rw [switches, List.filter_append, List.map_append]
  rfl

theorem switches_cons_of_counts (hkey : R.key n = k) (hcounts : R.counts n = true) (l : List ν) :
    switches R k (n :: l) = R.on n :: switches R k l := by
  have hboth : (decide (R.key n = k) && R.counts n) = true := by
    rw [Bool.and_eq_true, decide_eq_true_eq]
    exact ⟨hkey, hcounts⟩
  rw [switches, List.filter_cons_of_pos (p := fun n => decide (R.key n = k) && R.counts n) hboth,
    List.map_cons]
  rfl

theorem switches_cons_of_not (h : ¬ (R.key n = k ∧ R.counts n = true)) (l : List ν) :
    switches R k (n :: l) = switches R k l := by
  rw [switches, List.filter_cons_of_neg]
  · rfl
  · rw [Bool.and_eq_true, decide_eq_true_eq]
    exact h

/-- Of an alternating key nothing that counts is overtaken in its turn. -/
theorem switches_eq_nil {earlier : List ν} (h : InTurn R pre n) (hkey : R.key n = k)
    (hcounts : R.counts n = true)
    (hchain : (switches R k (earlier ++ (pre ++ n :: post))).IsChain (· ≠ ·)) :
    switches R k pre = [] := by
  rw [switches_append, switches_append, switches_cons_of_counts hkey hcounts] at hchain
  have hpre := (List.isChain_append.1 hchain).2.1
  have hlast := (List.isChain_append.1 hpre).2.2
  cases hsome : (switches R k pre).getLast? with
  | none => exact List.getLast?_eq_none_iff.1 hsome
  | some b =>
    have hmem : b ∈ switches R k pre := List.mem_of_getLast? hsome
    obtain ⟨m, hm, rfl⟩ := List.mem_map.1 hmem
    obtain ⟨hin, hcond⟩ := List.mem_filter.1 hm
    rw [Bool.and_eq_true, decide_eq_true_eq] at hcond
    exact absurd (h m hin (hcond.1.trans hkey.symm)) (hlast _ hsome _ rfl)

/-- Delivering a notice in its turn does not change the order of the switches. -/
theorem switches_of_inTurn {earlier : List ν} (h : InTurn R pre n)
    (hchain : (switches R k (earlier ++ (pre ++ n :: post))).IsChain (· ≠ ·)) :
    switches R k ((earlier ++ [n]) ++ (pre ++ post)) =
      switches R k (earlier ++ (pre ++ n :: post)) := by
  by_cases hn : R.key n = k ∧ R.counts n = true
  · have hnil := switches_eq_nil h hn.1 hn.2 hchain
    simp only [switches_append, hnil, switches_cons_of_counts hn.1 hn.2, List.nil_append,
      List.append_assoc, List.cons_append]
  · have hnil : switches R k ([] : List ν) = [] := rfl
    simp only [switches_append, switches_cons_of_not hn, hnil, List.append_nil]

theorem Alternates.of_append {l l' : List Bool} (h : Alternates (l ++ l')) : Alternates l := by
  refine ⟨?_, (List.isChain_append.1 h.2).1⟩
  cases l with
  | nil => exact fun heq => nomatch heq
  | cons b l => exact h.1

/-- One more switch of the other kind. -/
theorem Alternates.concat {l : List Bool} {b : Bool} (h : Alternates l)
    (hb : l.getLast? = some true ↔ b = false) : Alternates (l ++ [b]) := by
  constructor
  · cases l with
    | nil =>
      cases b with
      | true => exact fun h => nomatch h
      | false => exact absurd (hb.2 rfl) (fun h => nomatch h)
    | cons c l => exact h.1
  · refine List.isChain_append.2 ⟨h.2, List.isChain_singleton b, fun c hc c' hc' => ?_⟩
    cases hc'
    rintro rfl
    cases c with
    | true => exact absurd (hb.1 hc) (fun h => nomatch h)
    | false =>
      have htrue := hb.2 rfl
      rw [hc] at htrue
      cases htrue

end Notices
