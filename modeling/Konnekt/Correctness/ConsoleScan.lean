import Konnekt.Server.Instance
import Konnekt.Server.LogLine

/-!
# The lines of the console

However its reads fall, the scanner of the console gives the lines of the stream, each cut
at the size of the buffer. What is still to come of a stream is a function of the state of
the split function and of the bytes it has not consumed, and every turn preserves it.
-/

namespace Konnekt.Server

open Go Scanner

/-! ## Line breaks -/

/-- What follows a `\r`, without the `\n` that belongs to it. -/
def dropLF : List UInt8 → List UInt8
  | [] => []
  | b :: s => if b = lf then s else b :: s

/-- What follows the first line break. -/
def afterBreak : List UInt8 → List UInt8
  | [] => []
  | b :: s => if b = cr then dropLF s else if b = lf then s else afterBreak s

def NoBreak (l : List UInt8) : Prop := ∀ b ∈ l, isBreak b = false

theorem isBreak_iff {b : UInt8} : isBreak b = true ↔ b = lf ∨ b = cr := by
  simp [isBreak]

theorem linesFrom_cons (seen : List UInt8) (b : UInt8) (s : List UInt8) :
    linesFrom seen (b :: s) =
      if b = cr then seen :: linesFrom [] (dropLF s)
      else if b = lf then seen :: linesFrom [] s
      else linesFrom (seen ++ [b]) s := by
  have hne : lf ≠ cr := by decide
  cases s with
  | nil =>
    by_cases hcr : b = cr
    · simp [linesFrom, hcr, isBreak, dropLF]
    · by_cases hlf : b = lf
      · simp [linesFrom, hlf, isBreak, hne]
      · simp [linesFrom, hcr, hlf, isBreak]
  | cons c s =>
    by_cases hcr : b = cr
    · by_cases hc : c = lf
      · simp [linesFrom, hcr, hc, dropLF]
      · simp [linesFrom, hcr, hc, dropLF, isBreak]
    · by_cases hlf : b = lf
      · simp [linesFrom, hlf, isBreak, hne]
      · simp [linesFrom, hcr, hlf, isBreak]

theorem NoBreak.head {b : UInt8} {l : List UInt8} (h : NoBreak (b :: l)) : b ≠ cr ∧ b ≠ lf := by
  have hb := h b List.mem_cons_self
  simp only [isBreak, Bool.or_eq_false_iff, beq_eq_false_iff_ne] at hb
  exact hb.symm

theorem NoBreak.tail {b : UInt8} {l : List UInt8} (h : NoBreak (b :: l)) : NoBreak l :=
  fun c hc => h c (List.mem_cons_of_mem b hc)

theorem linesFrom_append {l : List UInt8} (h : NoBreak l) (seen s : List UInt8) :
    linesFrom seen (l ++ s) = linesFrom (seen ++ l) s := by
  induction l generalizing seen with
  | nil => simp
  | cons b l ih =>
    rw [List.cons_append, linesFrom_cons, if_neg h.head.1, if_neg h.head.2, ih h.tail,
      List.append_assoc, List.singleton_append]

theorem afterBreak_append {l : List UInt8} (h : NoBreak l) (s : List UInt8) :
    afterBreak (l ++ s) = afterBreak s := by
  induction l with
  | nil => simp
  | cons b l ih =>
    rw [List.cons_append, afterBreak, if_neg h.head.1, if_neg h.head.2, ih h.tail]

/-- Where a line has begun its first bytes are seen, and the lines after it are those after the
next break. -/
theorem linesFrom_of_seen {seen : List UInt8} (hseen : seen ≠ []) (s : List UInt8) :
    ∃ l, linesFrom seen s = (seen ++ l) :: consoleLines (afterBreak s) := by
  induction s generalizing seen with
  | nil => exact ⟨[], by simp [linesFrom, hseen, afterBreak, consoleLines]⟩
  | cons b s ih =>
    rw [linesFrom_cons, afterBreak]
    by_cases hcr : b = cr
    · exact ⟨[], by simp [hcr, consoleLines]⟩
    · by_cases hlf : b = lf
      · have hne : lf ≠ cr := by decide
        exact ⟨[], by simp [hlf, hne, consoleLines]⟩
      · obtain ⟨l, hl⟩ := @ih (seen ++ [b]) (by simp)
        exact ⟨b :: l, by simp [hcr, hlf, hl]⟩

theorem consoleLines_of_noBreak {l : List UInt8} (h : NoBreak l) (hl : l ≠ []) :
    consoleLines l = [l] := by
  have happend := linesFrom_append h [] []
  rw [List.append_nil, List.nil_append] at happend
  rw [consoleLines, happend, linesFrom, if_neg hl]

/-- A line and what ends it. -/
theorem consoleLines_append {l : List UInt8} (h : NoBreak l) {b : UInt8} (hb : isBreak b = true)
    (s : List UInt8) : consoleLines (l ++ b :: s) =
      l :: consoleLines (if b = cr then dropLF s else s) := by
  rw [consoleLines, linesFrom_append h, List.nil_append, linesFrom_cons]
  rcases isBreak_iff.mp hb with rfl | rfl
  · simp [show lf ≠ cr by decide, consoleLines]
  · simp [consoleLines]

theorem afterBreak_append_break {l : List UInt8} (h : NoBreak l) {b : UInt8}
    (hb : isBreak b = true) (s : List UInt8) :
    afterBreak (l ++ b :: s) = if b = cr then dropLF s else s := by
  rw [afterBreak_append h, afterBreak]
  rcases isBreak_iff.mp hb with rfl | rfl
  · simp [show lf ≠ cr by decide]
  · simp

/-- The first line of a stream that begins without a break begins with these bytes. -/
theorem consoleLines_of_noBreak_append {l : List UInt8} (h : NoBreak l) (hl : l ≠ [])
    (s : List UInt8) :
    ∃ more, consoleLines (l ++ s) = (l ++ more) :: consoleLines (afterBreak s) := by
  rw [consoleLines, linesFrom_append h, List.nil_append]
  exact linesFrom_of_seen hl s

/-- Up to its first break a list has none. -/
theorem exists_break (data : List UInt8) :
    NoBreak data ∧ data.drop (data.takeWhile fun b => !isBreak b).length = [] ∨
      ∃ l b after, data = l ++ b :: after ∧ NoBreak l ∧ isBreak b = true ∧
        (data.takeWhile fun b => !isBreak b) = l := by
  induction data with
  | nil => exact .inl ⟨by simp [NoBreak], rfl⟩
  | cons c data ih =>
    cases hc : isBreak c with
    | true =>
      refine .inr ⟨[], c, data, rfl, by simp [NoBreak], hc, ?_⟩
      simp [hc]
    | false =>
      have hcons : ∀ l, NoBreak l → NoBreak (c :: l) := by
        intro l hl d hd
        rcases List.mem_cons.mp hd with rfl | hd
        · exact hc
        · exact hl d hd
      rcases ih with ⟨hno, hnil⟩ | ⟨l, b, after, rfl, hl, hb, htake⟩
      · refine .inl ⟨hcons data hno, ?_⟩
        simpa [hc] using hnil
      · refine .inr ⟨c :: l, b, after, rfl, hcons l hl, hb, ?_⟩
        simpa [hc] using htake

/-! ## What is still to come -/

/-- The lines that a scan in this state has yet to give of a stream. -/
def pendingLines (maxLine : Nat) (s : ConsoleSplit) (stream : List UInt8) : List (List UInt8) :=
  let stream := if s.skipNextLF then dropLF stream else stream
  (consoleLines (if s.dropping then afterBreak stream else stream)).map (List.take maxLine)

/-- A `\r` ends the excess of an overlong line. -/
def Apart (s : ConsoleSplit) : Prop := s.skipNextLF = true → s.dropping = false

/-- Where the scan asks for more, a pending `\n` has not come and the excess goes on. -/
def AsksFor (s : ConsoleSplit) (data : List UInt8) : Prop :=
  (s.skipNextLF = true → data = []) ∧ (s.dropping = true → NoBreak data)

/-- What a call of the split function does. -/
inductive SplitCase (maxLine : Nat) (st : ConsoleSplit) (data : List UInt8) (eof : Bool) :
    (Nat × Option (List UInt8)) × ConsoleSplit → Prop where
  | lineFeed (rest : List UInt8) (hskip : st.skipNextLF = true) (hdata : data = lf :: rest) :
    SplitCase maxLine st data eof ((1, none), { st with skipNextLF := false })
  | line (l : List UInt8) (b : UInt8) (after : List UInt8) (advance : Nat)
    (hdata : data = l ++ b :: after) (hl : NoBreak l) (hb : isBreak b = true)
    (hskip : ¬ (st.skipNextLF = true ∧ data.head? = some lf)) (hpos : l.length < advance)
    (hle : advance ≤ data.length)
    (hdrop : data.drop advance = if b = cr then dropLF after else after) :
    SplitCase maxLine st data eof
      ((advance, if st.dropping then none else some l), ⟨false, b == cr && after.isEmpty⟩)
  | full (hdata : NoBreak data) (hlength : maxLine ≤ data.length) :
    SplitCase maxLine st data eof
      ((maxLine, if st.dropping then none else some (data.take maxLine)), ⟨true, false⟩)
  | last (hdata : NoBreak data) (hlength : data.length < maxLine) (heof : eof = true) :
    SplitCase maxLine st data eof
      ((data.length, if st.dropping then none else some data), ⟨st.dropping, false⟩)
  | more (hdata : NoBreak data) (hlength : data.length < maxLine) (heof : eof = false) :
    SplitCase maxLine st data eof ((0, none), ⟨st.dropping, false⟩)

theorem splitCase (maxLine : Nat) (st : ConsoleSplit) {data : List UInt8} (hdata : data ≠ [])
    (eof : Bool) :
    SplitCase maxLine st data eof (newConsoleSplitFunc maxLine st data eof) := by
  rw [newConsoleSplitFunc, if_neg hdata]
  split
  · rename_i hskip
    obtain ⟨rest, rfl⟩ := List.head?_eq_some_iff.mp hskip.2
    exact .lineFeed rest hskip.1 rfl
  · rename_i hskip
    rcases exists_break data with ⟨hno, hnil⟩ | ⟨l, b, after, rfl, hl, hb, htake⟩
    · dsimp only
      rw [hnil]
      dsimp only
      split
      · rename_i hlength
        have hfull := @SplitCase.full maxLine st data eof hno hlength
        cases hd : st.dropping <;> simpa [hd] using hfull
      · rename_i hlength
        rw [Nat.not_le] at hlength
        split
        · rename_i heof
          have hlast := @SplitCase.last maxLine st data eof hno hlength heof
          cases hd : st.dropping <;> simpa [hd] using hlast
        · rename_i heof
          exact .more hno hlength (Bool.eq_false_iff.mpr heof)
    · have hadvance : (l ++ b :: after).drop
          (if b = cr ∧ after.head? = some lf then l.length + 2 else l.length + 1) =
            if b = cr then dropLF after else after := by
        by_cases hcr : b = cr
        · cases after with
          | nil => simp [hcr, dropLF]
          | cons c rest => by_cases hc : c = lf <;> simp [hcr, hc, dropLF, List.drop_append]
        · simp [hcr, List.drop_append]
      have hline := @SplitCase.line maxLine st _ eof l b after _ rfl hl
        hb hskip (by split <;> omega) (by
          split
          · rename_i hcrlf
            obtain ⟨rest, rfl⟩ := List.head?_eq_some_iff.mp hcrlf.2
            simp
          · simp) hadvance
      dsimp only
      rw [htake, List.drop_left, List.take_left]
      dsimp only
      cases hd : st.dropping <;> simpa [hd] using hline

/-! ### One call preserves it -/

theorem NoBreak.drop {l : List UInt8} (h : NoBreak l) (n : Nat) : NoBreak (l.drop n) :=
  fun b hb => h b (List.mem_of_mem_drop hb)

theorem dropLF_of_head_ne {s : List UInt8} (h : s.head? ≠ some lf) : dropLF s = s := by
  cases s with
  | nil => rfl
  | cons b s => simpa [dropLF] using h

theorem dropLF_append {s : List UInt8} (hs : s ≠ []) (more : List UInt8) :
    dropLF (s ++ more) = dropLF s ++ more := by
  cases s with
  | nil => exact absurd rfl hs
  | cons b s =>
    simp only [List.cons_append, dropLF]
    split <;> rfl

theorem head?_ne_of_noBreak {l : List UInt8} (h : NoBreak l) (hl : l ≠ []) (s : List UInt8) :
    (l ++ s).head? ≠ some lf := by
  cases l with
  | nil => exact absurd rfl hl
  | cons b l => simpa using h.head.2

/-- A pending `\n` that does not come changes nothing. -/
theorem pendingLines_of_head_ne {maxLine : Nat} {st : ConsoleSplit} {s : List UInt8}
    (h : ¬ (st.skipNextLF = true ∧ s.head? = some lf)) :
    pendingLines maxLine st s = pendingLines maxLine ⟨st.dropping, false⟩ s := by
  unfold pendingLines
  cases hskip : st.skipNextLF with
  | false => rfl
  | true =>
    rw [dropLF_of_head_ne fun hhead => h ⟨hskip, hhead⟩]
    rfl

/-- What is left behind a line break is the same for the state after it. -/
theorem pendingLines_after (maxLine : Nat) (b : UInt8) (after more : List UInt8) :
    pendingLines maxLine ⟨false, b == cr && after.isEmpty⟩
      ((if b = cr then dropLF after else after) ++ more) =
      (consoleLines (if b = cr then dropLF (after ++ more) else after ++ more)).map
        (List.take maxLine) := by
  by_cases hcr : b = cr
  · cases after with
    | nil => simp [pendingLines, hcr, dropLF]
    | cons c rest => simp [pendingLines, hcr, ← dropLF_append]
  · simp [pendingLines, hcr]

theorem pendingLines_line {maxLine : Nat} {st : ConsoleSplit} {l : List UInt8} {b : UInt8}
    {after : List UInt8} (hl : NoBreak l) (hb : isBreak b = true)
    (hskip : ¬ (st.skipNextLF = true ∧ (l ++ b :: after).head? = some lf)) (more : List UInt8) :
    pendingLines maxLine st (l ++ b :: after ++ more) =
      (if st.dropping then [] else [l.take maxLine]) ++
        pendingLines maxLine ⟨false, b == cr && after.isEmpty⟩
          ((if b = cr then dropLF after else after) ++ more) := by
  have hhead : (l ++ b :: after ++ more).head? = (l ++ b :: after).head? := by
    cases l <;> rfl
  rw [pendingLines_of_head_ne (by rwa [hhead]), pendingLines_after]
  simp only [pendingLines, List.append_assoc, List.cons_append]
  cases hd : st.dropping with
  | true => simp [afterBreak_append_break hl hb]
  | false => simp [consoleLines_append hl hb]

theorem pendingLines_noBreak {maxLine : Nat} {st : ConsoleSplit} {data : List UInt8}
    (hdata : data ≠ []) (hno : NoBreak data) (more : List UInt8) :
    ∃ l, pendingLines maxLine st (data ++ more) =
      (if st.dropping then [] else [(data ++ l).take maxLine]) ++
        (consoleLines (afterBreak more)).map (List.take maxLine) := by
  have hhead := head?_ne_of_noBreak hno hdata more
  obtain ⟨l, hl⟩ := consoleLines_of_noBreak_append hno hdata more
  refine ⟨l, ?_⟩
  rw [pendingLines_of_head_ne fun h => hhead h.2]
  cases hd : st.dropping with
  | true => simp [pendingLines, afterBreak_append hno]
  | false => simp [pendingLines, hl]

theorem pendingLines_dropping {maxLine : Nat} {data : List UInt8} (hno : NoBreak data)
    (more : List UInt8) :
    pendingLines maxLine ⟨true, false⟩ (data ++ more) =
      (consoleLines (afterBreak more)).map (List.take maxLine) := by
  simp [pendingLines, afterBreak_append hno]

/-- The end of the stream is the end of the line begun. -/
theorem pendingLines_end {maxLine : Nat} {st : ConsoleSplit} {data : List UInt8}
    (hdata : data ≠ []) (hno : NoBreak data) :
    pendingLines maxLine st data = if st.dropping then [] else [data.take maxLine] := by
  have hhead := head?_ne_of_noBreak hno hdata []
  rw [List.append_nil] at hhead
  rw [pendingLines_of_head_ne fun h => hhead h.2]
  cases hd : st.dropping with
  | true =>
    have hafter := afterBreak_append hno []
    rw [List.append_nil] at hafter
    simp [pendingLines, hafter, afterBreak, consoleLines, linesFrom]
  | false => simp [pendingLines, consoleLines_of_noBreak hno hdata]

theorem pendingLines_nil (maxLine : Nat) (st : ConsoleSplit) : pendingLines maxLine st [] = [] := by
  simp [pendingLines, dropLF, afterBreak, consoleLines, linesFrom]

theorem apart_of_splitCase {maxLine : Nat} {st : ConsoleSplit} {data : List UInt8} {eof : Bool}
    {r : (Nat × Option (List UInt8)) × ConsoleSplit} (h : SplitCase maxLine st data eof r) :
    Apart r.2 := by
  cases h with
  | line => exact fun _ => rfl
  | lineFeed | full | last | more => exact fun hskip => absurd hskip Bool.false_ne_true

/-- Behind a line break the scan is at the start of a line, and a pending `\n` is still to be
read. -/
theorem asksFor_after {b : UInt8} {after : List UInt8} :
    AsksFor ⟨false, b == cr && after.isEmpty⟩ (if b = cr then dropLF after else after) := by
  constructor
  · intro hskip
    simp only [Bool.and_eq_true, beq_iff_eq, List.isEmpty_iff] at hskip
    simp [hskip.1, hskip.2, dropLF]
  · exact fun hdropping => absurd hdropping Bool.false_ne_true

theorem not_noBreak_of_isBreak {l : List UInt8} {b : UInt8} {after : List UInt8}
    (hb : isBreak b = true) : ¬ NoBreak (l ++ b :: after) := by
  intro h
  rw [h b (by simp)] at hb
  exact Bool.false_ne_true hb

theorem sound_newConsoleSplitFunc {maxLine : Nat} (h : 0 < maxLine) :
    Sound maxLine (newConsoleSplitFunc maxLine) (pendingLines maxLine) Apart AsksFor where
  empty := fun st => ⟨fun _ => rfl, fun _ => by simp [NoBreak]⟩
  inv := by
    intro st data eof res st' hst hres
    by_cases hdata : data = []
    · rw [newConsoleSplitFunc, if_pos hdata] at hres
      cases hres
      exact hst
    · have hcase := apart_of_splitCase (splitCase maxLine st hdata eof)
      rwa [hres] at hcase
  token := by
    intro st data eof advance t st' hst hdata hlength hres
    have hcase := splitCase maxLine st hdata eof
    generalize newConsoleSplitFunc maxLine st data eof = r at hcase hres
    cases hcase with
    | lineFeed rest hskip hdata => simp at hres
    | line l b after n hdata hl hb hskip hpos hle hdrop =>
      subst hdata
      cases hd : st.dropping with
      | true => simp [hd] at hres
      | false =>
        simp only [hd, Bool.false_eq_true, if_false, Prod.mk.injEq, Option.some.injEq] at hres
        obtain ⟨⟨rfl, rfl⟩, rfl⟩ := hres
        refine ⟨by omega, hle, fun more _ => ?_⟩
        rw [pendingLines_line hl hb hskip, hdrop, hd]
        have htake : l.take maxLine = l := by
          rw [List.length_append, List.length_cons] at hlength
          exact List.take_of_length_le (by omega)
        simp [htake]
    | full hno hfull =>
      cases hd : st.dropping with
      | true => simp [hd] at hres
      | false =>
        simp only [hd, Bool.false_eq_true, if_false, Prod.mk.injEq, Option.some.injEq] at hres
        obtain ⟨⟨rfl, rfl⟩, rfl⟩ := hres
        refine ⟨h, hfull, fun more _ => ?_⟩
        -- What follows of the line is discarded, and the lines after it are not.
        obtain ⟨l, hl⟩ := @pendingLines_noBreak maxLine st data hdata hno more
        rw [hl, pendingLines_dropping (hno.drop maxLine), List.take_append_of_le_length hfull, hd]
        rfl
    | last hno hlt heof =>
      cases hd : st.dropping with
      | true => simp [hd] at hres
      | false =>
        simp only [hd, Bool.false_eq_true, if_false, Prod.mk.injEq, Option.some.injEq] at hres
        obtain ⟨⟨rfl, rfl⟩, rfl⟩ := hres
        refine ⟨List.length_pos_of_ne_nil hdata, Nat.le_refl _, fun more hmore => ?_⟩
        rw [hmore heof, List.append_nil, List.append_nil, List.drop_length, pendingLines_nil,
          pendingLines_end hdata hno, hd, List.take_of_length_le (Nat.le_of_lt hlt)]
        rfl
    | more hno hlt heof => simp at hres
  asks := by
    intro st data advance st' hst hdata hlength hres
    have hpos := List.length_pos_of_ne_nil hdata
    have hcase := splitCase maxLine st hdata false
    generalize newConsoleSplitFunc maxLine st data false = r at hcase hres
    cases hcase with
    | lineFeed rest hskip hdata =>
      subst hdata
      simp only [Prod.mk.injEq, and_true] at hres
      obtain ⟨rfl, rfl⟩ := hres
      refine ⟨hpos, by omega, ⟨fun h => absurd h Bool.false_ne_true, fun hdropping => ?_⟩,
        fun more => ?_⟩
      · have hd : st.dropping = false := hst hskip
        rw [show st.dropping = true from hdropping] at hd
        exact absurd hd.symm Bool.false_ne_true
      · simp [pendingLines, hskip, dropLF]
    | line l b after n hdata hl hb hskip hpos hle hdrop =>
      subst hdata
      cases hd : st.dropping with
      | false => simp [hd] at hres
      | true =>
        simp only [hd, if_true, Prod.mk.injEq, and_true] at hres
        obtain ⟨rfl, rfl⟩ := hres
        refine ⟨hle, by omega, ?_, fun more => ?_⟩
        · rw [hdrop]
          exact asksFor_after
        · rw [pendingLines_line hl hb hskip, hdrop, hd]
          rfl
    | full hno hfull =>
      cases hd : st.dropping with
      | false => simp [hd] at hres
      | true =>
        simp only [hd, if_true, Prod.mk.injEq, and_true] at hres
        obtain ⟨rfl, rfl⟩ := hres
        refine ⟨hfull, by omega, ⟨fun h => absurd h Bool.false_ne_true, fun _ => hno.drop _⟩,
          fun more => ?_⟩
        obtain ⟨l, hl⟩ := @pendingLines_noBreak maxLine st data hdata hno more
        rw [hl, pendingLines_dropping (hno.drop maxLine), hd]
        rfl
    | last hno hlt heof => exact absurd heof Bool.false_ne_true
    | more hno hlt heof =>
      simp only [Prod.mk.injEq, and_true] at hres
      obtain ⟨rfl, rfl⟩ := hres
      refine ⟨Nat.zero_le _, by omega, ⟨fun h => absurd h Bool.false_ne_true, fun _ => hno⟩,
        fun more => ?_⟩
      exact pendingLines_of_head_ne fun h => head?_ne_of_noBreak hno hdata more h.2
  last := by
    intro st data advance t st' hst hwaits hres
    by_cases hdata : data = []
    · rw [newConsoleSplitFunc, if_pos hdata] at hres
      cases hres
      exact ⟨Nat.zero_le _, hdata ▸ pendingLines_nil maxLine st⟩
    · have hcase := splitCase maxLine st hdata true
      generalize newConsoleSplitFunc maxLine st data true = r at hcase hres
      cases hcase with
      | lineFeed rest hskip hrest => exact absurd (hwaits.1 hskip) hdata
      | line l b after n hline hl hb hskip hpos hle hdrop =>
        subst hline
        cases hd : st.dropping with
        | true => exact absurd (hwaits.2 hd) (not_noBreak_of_isBreak hb)
        | false =>
          simp only [hd, Bool.false_eq_true, if_false, Prod.mk.injEq] at hres
          obtain ⟨⟨rfl, rfl⟩, rfl⟩ := hres
          refine ⟨hdata, ?_⟩
          rw [hdrop]
          exact asksFor_after
      | full hno hfull =>
        cases hd : st.dropping with
        | true =>
          simp only [hd, if_true, Prod.mk.injEq] at hres
          obtain ⟨⟨rfl, rfl⟩, rfl⟩ := hres
          exact ⟨hfull, by rw [pendingLines_end hdata hno, hd, if_pos rfl]⟩
        | false =>
          simp only [hd, Bool.false_eq_true, if_false, Prod.mk.injEq] at hres
          obtain ⟨⟨rfl, rfl⟩, rfl⟩ := hres
          exact ⟨hdata, fun h => absurd h Bool.false_ne_true, fun _ => hno.drop _⟩
      | last hno hlt heof =>
        cases hd : st.dropping with
        | true =>
          simp only [hd, if_true, Prod.mk.injEq] at hres
          obtain ⟨⟨rfl, rfl⟩, rfl⟩ := hres
          exact ⟨Nat.le_refl _, by rw [pendingLines_end hdata hno, hd, if_pos rfl]⟩
        | false =>
          simp only [hd, Bool.false_eq_true, if_false, Prod.mk.injEq] at hres
          obtain ⟨⟨rfl, rfl⟩, rfl⟩ := hres
          exact ⟨hdata, fun h => absurd h Bool.false_ne_true,
            fun h => absurd h Bool.false_ne_true⟩
      | more hno hlt heof => exact absurd heof.symm Bool.false_ne_true

/-- The scan gives exactly the lines of the stream, each cut at the size of the buffer, and ends
because the stream does. -/
theorem streamLines_eq {maxLine : Nat} (h : 0 < maxLine) (sizes : Nat → Nat)
    (stream : List UInt8) :
    streamLines maxLine sizes stream =
      ((consoleLines stream).map (List.take maxLine), some .done) := by
  have hscan := scan_stream sizes (sound_newConsoleSplitFunc h) h
    (fun hskip : (({} : ConsoleSplit).skipNextLF = true) => absurd hskip Bool.false_ne_true)
    stream (show 2 * stream.length + 1 < 2 * stream.length + 2 by omega)
  rw [streamLines, hscan]
  rfl

/-- Four bytes fit: the first line is cut, and the `\r\n` after it falls into two reads. -/
theorem streamLines_cut :
    streamLines 4 (fun k => if k = 1 then 1 else 0) [97, 98, 99, 100, 101, 13, 10, 102] =
      ([[97, 98, 99, 100], [102]], some .done) :=
  streamLines_eq (by decide) _ _

/-! ## Chat on the console

A chat message matches none of the anchored matchers. What a player types reaches
the instance all the same where it spells one of the two texts that are looked
for anywhere in the line. -/

variable {parseIP : String → Option String} {line : String}

theorem playerPhrase_chat {msg : List Char} (h : IsChat msg) (text : String) :
    playerPhrase text msg = none := by
  rw [playerPhrase, takePlayer_chat h]
  rfl

theorem playerSections_chat {msg : List Char} (h : IsChat msg) : playerSections parseIP msg = [] := by
  have huuid : rePlayerUUID msg = none := by
    rw [rePlayerUUID, cutText_chat h (by decide) (by decide)]
    rfl
  have hlogin : rePlayerLogin msg = none := by
    rw [rePlayerLogin, takePlayer_chat h]
    rfl
  have hjoin : rePlayerJoin msg = none := playerPhrase_chat h _
  have hleave : rePlayerLeave msg = none := playerPhrase_chat h _
  have hlost : rePlayerLost msg = none := playerPhrase_chat h _
  rw [playerSections, huuid, hlogin, hjoin, hleave, hlost]

/-- The sections of a chat line are those of its texts. -/
theorem lineSections_chat (h : IsChat (logMessage line)) :
    lineSections parseIP line = [.console line] ++
      (if mentionsEula line then [.eulaRequired] else []) ++
      (if cannotKeepUp line then [.cannotKeepUp] else []) := by
  unfold lineSections
  simp only [reServerStop_chat h, reServerCrash_chat h, reWorldsSaved_chat h, reServerReady_chat h,
    playerSections_chat h, Bool.false_eq_true, if_false, List.append_nil]

/-- Processing the line adds it to the console and does nothing else, whatever the state. -/
def OnlyConsole (parseIP : String → Option String) (line : String) : Prop :=
  ∀ now s, processLine parseIP now line s = s.emitConsoleLine now line

/-- The estimate of the ticks per second, by which the scheduler fires its triggers, does not
depend on the console. -/
theorem OnlyConsole.estimatedTPS (h : OnlyConsole parseIP line) (now later : Int) (s : Instance) :
    (processLine parseIP now line s).estimatedTPS later = s.estimatedTPS later := by
  rw [h now s]
  rfl

/-- An instance that has heard nothing yet. -/
def quietInstance : Instance := { id := "s1" }

/-- A chat line does nothing but appear on the console exactly when it neither mentions
`eula.txt` nor contains the overload warning. -/
theorem onlyConsole_iff (h : IsChat (logMessage line)) :
    OnlyConsole parseIP line ↔ mentionsEula line = false ∧ cannotKeepUp line = false := by
  unfold OnlyConsole processLine
  rw [lineSections_chat h]
  constructor
  · intro honly
    have hquiet := honly 0 quietInstance
    constructor
    · by_contra heula
      rw [Bool.not_eq_false] at heula
      rw [heula] at hquiet
      have hevents := congrArg (fun s => s.events[1]?) hquiet
      have hprompt : some Event.eulaRequired = none := by
        cases hkeep : cannotKeepUp line <;> rw [hkeep] at hevents <;> exact hevents
      cases hprompt
    · by_contra hkeep
      rw [Bool.not_eq_false] at hkeep
      rw [hkeep] at hquiet
      have htps := congrArg (fun s => s.logLastWarning) hquiet
      have hwarned : some (0 : Int) = none := by
        cases heula : mentionsEula line <;> rw [heula] at htps <;> exact htps
      cases hwarned
  · rintro ⟨heula, hkeep⟩ now s
    rw [heula, hkeep]
    rfl

/-- A greeting does nothing else. -/
theorem onlyConsole_iff_greeting :
    OnlyConsole (fun _ => none) "[12:00:00] [Server thread/INFO]: <Alex> hi" :=
  (onlyConsole_iff ⟨"Alex".toList, "hi".toList, by decide +kernel⟩).mpr
    ⟨by decide +kernel, by decide +kernel⟩

/-- A player asks about the licence file. -/
theorem not_onlyConsole_eula :
    IsChat (logMessage "[12:00:00] [Server thread/INFO]: <Alex> where is eula.txt?") ∧
      ¬ OnlyConsole (fun _ => none) "[12:00:00] [Server thread/INFO]: <Alex> where is eula.txt?" := by
  constructor
  · exact ⟨"Alex".toList, "where is eula.txt?".toList, by decide +kernel⟩
  · intro honly
    have hevents := congrArg (fun s => s.events.length) (honly 0 quietInstance)
    exact absurd hevents (by decide +kernel)

end Konnekt.Server
