import Konnekt.Scheduler.Blocks
import Konnekt.Scheduler.ExprPanics

/-!
# Arithmetic of attribute expressions and of the math block

Both guard a remainder by comparing the divisor with zero before it is truncated
to an integer. The divisors that slip through are the fractions between -1 and 1,
and they are the only way either of the two can stop the program.
-/

namespace Konnekt.Scheduler

open Go

/-- A number that is not zero but truncates to it. -/
def IsFraction (d : Float64) : Prop := ∃ q : ℚ, d = .fin q ∧ q ≠ 0 ∧ |q| < 1

/-- The check against zero lets a divisor through that truncates to zero exactly when it is
a fraction. -/
theorem isFraction_iff (d : Float64) : IsFraction d ↔ d.eq 0 = false ∧ toInt64 d = 0 := by
  cases d with
  | fin q =>
    have heq : Float64.eq (.fin q) 0 = false ↔ q ≠ 0 := by
      show (Float64.fin q == Float64.fin 0) = false ↔ q ≠ 0
      simp
    rw [toInt64_fin_eq_zero_iff, heq]
    constructor
    · rintro ⟨p, hp, hrest⟩
      cases hp
      exact hrest
    · rintro ⟨hne, hlt⟩
      exact ⟨q, rfl, hne, hlt⟩
  | inf neg => exact iff_of_false (by rintro ⟨q, hq, -⟩; cases hq) fun h =>
      toInt64_ne_zero_of_not_fin (by simp) h.2
  | nan => exact iff_of_false (by rintro ⟨q, hq, -⟩; cases hq) fun h =>
      toInt64_ne_zero_of_not_fin (by simp) h.2

/-! ## Expressions -/

/-- A call ends with a value or an error. -/
def Returns {α : Type} (x : Outcome α) : Prop := (∃ a, x = .ok a) ∨ ∃ m, x = .err m

theorem returns_iff {α : Type} (x : Outcome α) : Returns x ↔ x.panics = false := by
  cases x with
  | ok a => exact iff_of_true (.inl ⟨a, rfl⟩) rfl
  | err m => exact iff_of_true (.inr ⟨m, rfl⟩) rfl
  | panic r => simp [Returns, Outcome.panics]

/-- A divisor an evaluation reaches has passed the check against zero. -/
theorem ReachesMod.ne_zero {scope : AttrScope} {visiting : List String} {e : Expr}
    {d : Float64} (h : ReachesMod scope visiting e d) : d.eq 0 = false := by
  induction h with
  | here hl hr hd => exact hd.2.2.2
  | neg h ih => exact ih
  | andFail h ih => exact ih
  | left h ih => exact ih
  | right hl h ih => exact ih
  | ref hraw hopen hbody h ih => exact ih

/-- Evaluating an expression ends, and no remainder on the way has a divisor that truncates
to zero. -/
structure ExprArithmeticSafe (scope : AttrScope) (src : String) : Prop where
  returns : Returns (evalExpr scope.resolve src)
  divisors : ∀ d, ReachesMod scope [] (parseTree src.toList) d → toInt64 d ≠ 0

private theorem exprArithmeticSafe_iff (scope : AttrScope) (src : String) :
    ExprArithmeticSafe scope src ↔
      ∀ d, ReachesMod scope [] (parseTree src.toList) d → ¬ IsFraction d := by
  have hpanics := panics_evalExpr scope src
  constructor
  · intro h d hd hfraction
    exact h.divisors d hd ((isFraction_iff d).1 hfraction).2
  · intro h
    have hdivisors : ∀ d, ReachesMod scope [] (parseTree src.toList) d → toInt64 d ≠ 0 :=
      fun d hd hzero => h d hd ((isFraction_iff d).2 ⟨hd.ne_zero, hzero⟩)
    refine ⟨?_, hdivisors⟩
    rw [returns_iff, Bool.eq_false_iff, ne_eq, hpanics]
    rintro ⟨d, hd, hzero⟩
    exact hdivisors d hd hzero

/-! ## The math block -/

section

variable {W : Type}

/-- The math block sets its result or fails with an error, and a remainder it takes has a
divisor that does not truncate to zero. -/
structure MathArithmeticSafe (e : ExecContext) (w : W) : Prop where
  settles : (∃ done result, execMathOp e w = .ok done ∧ done.result.err = none ∧
      done.dataOut.lookup "result" = some (.num result)) ∨
    ∃ done m, execMathOp e w = .ok done ∧ done.result.err = some m
  divisor : e.getString "op" = "mod" → (e.getFloat "b" 0).eq 0 = false →
    toInt64 (e.getFloat "b" 0) ≠ 0

/-- The math block panics only in a remainder. -/
theorem panics_mathOp (op : String) (a b : Float64) :
    (mathOp op a b).panics = true ↔ op = "mod" ∧ IsFraction b := by
  rw [isFraction_iff]
  unfold mathOp
  split
  case isTrue hop => simp [hop, Outcome.panics]
  split
  case isTrue hop => simp [hop, Outcome.panics]
  split
  case isTrue hop => simp [hop, Outcome.panics]
  split
  case isTrue hop =>
    split <;> simp [hop, Outcome.panics]
  split
  case isTrue hop =>
    cases hb : b.eq 0 with
    | true => simp [Outcome.panics]
    | false => simp [hop, panics_intMod]
  case isFalse hop =>
    refine iff_of_false ?_ fun h => hop h.1
    split <;> simp [Outcome.panics]

private theorem mathArithmeticSafe_iff (e : ExecContext) (w : W) :
    MathArithmeticSafe e w ↔ ¬ (e.getString "op" = "mod" ∧ IsFraction (e.getFloat "b" 0)) := by
  have hpanics := panics_mathOp (e.getString "op") (e.getFloat "a" 0) (e.getFloat "b" 0)
  constructor
  · rintro h ⟨hop, hb⟩
    have hzero := (isFraction_iff _).1 hb
    exact h.divisor hop hzero.1 hzero.2
  · intro h
    refine ⟨?_, fun hop hne hzero => h ⟨hop, (isFraction_iff _).2 ⟨hne, hzero⟩⟩⟩
    rw [← hpanics] at h
    unfold execMathOp
    cases hmath : mathOp (e.getString "op") (e.getFloat "a" 0) (e.getFloat "b" 0) with
    | ok result => exact .inl ⟨_, result, rfl, rfl, AList.lookup_insert _⟩
    | err m => exact .inr ⟨_, m, rfl, rfl⟩
    | panic r => exact absurd (by rw [hmath]; rfl) h

end

/-- Expressions and the math block are safe exactly when no remainder is taken by a fraction
between -1 and 1. -/
theorem arithmeticSafe_iff (scope : AttrScope) (src : String) (e : ExecContext) {W : Type}
    (w : W) :
    (ExprArithmeticSafe scope src ↔
      ∀ d, ReachesMod scope [] (parseTree src.toList) d → ¬ IsFraction d) ∧
    (MathArithmeticSafe e w ↔
      ¬ (e.getString "op" = "mod" ∧ IsFraction (e.getFloat "b" 0))) :=
  ⟨exprArithmeticSafe_iff scope src, mathArithmeticSafe_iff e w⟩

/-- A scope without custom attributes on the idle host. -/
def plainScope : AttrScope := ⟨"s1", idleHost.view (), ∅⟩

/-- The math block told to take 10 modulo a half. -/
def halfModulus : ExecContext where
  serverID := "s1"
  config := GoMap.ofList [("op", .str "mod"), ("a", .num 10), ("b", .num (.fin (1 / 2)))]
  rawConfig := ∅
  dataIn := ∅
  attrs := plainScope

/-- A remainder by a half stops the program in either place. -/
theorem not_arithmeticSafe_half :
    ¬ ExprArithmeticSafe plainScope "10 % 0.5" ∧ ¬ MathArithmeticSafe halfModulus () := by
  constructor
  · intro h
    have hpanic : (evalExpr plainScope.resolve "10 % 0.5").panics = true := by decide +kernel
    rw [(returns_iff _).1 h.returns] at hpanic
    cases hpanic
  · intro h
    have hpanic : (execMathOp halfModulus ()).panics = true := by decide +kernel
    rcases h.settles with ⟨done, result, hdone, -⟩ | ⟨done, m, hdone, -⟩
    · rw [hdone] at hpanic
      cases hpanic
    · rw [hdone] at hpanic
      cases hpanic

end Konnekt.Scheduler
