import Konnekt.Correctness.Prediction
import Mathlib.Data.Nat.Periodic

/-!
# The successor of a cron expression

The scan for the next match covers fourteen days from the boundary after now, while the
calendar repeats only after 400 years. A match that the scan misses lies within one such
cycle, so whether there is one is a matter of finitely many minutes.
-/

namespace Konnekt.Scheduler

open Go

/-! ## The cycle of the calendar -/

/-- Days in 400 years. -/
def eraDays : Int := 146097

theorem yearOfDay_add_era (d : Int) : yearOfDay (d + eraDays) = yearOfDay d + 400 := by
  simp only [yearOfDay, eraDays]
  omega

theorem isLeap_add_era (y : Int) : isLeap (y + 400) = isLeap y := by
  have h4 : (y + 400) % 4 = y % 4 := by omega
  have h100 : (y + 400) % 100 = y % 100 := by omega
  have h400 : (y + 400) % 400 = y % 400 := by omega
  simp only [isLeap, h4, h100, h400]

theorem yearDayOfDay_add_era (d : Int) : yearDayOfDay (d + eraDays) = yearDayOfDay d := by
  rw [yearDayOfDay, yearOfDay_add_era, yearDayOfDay]
  simp only [daysBeforeYear, eraDays]
  omega

theorem monthOfDay_add_era (d : Int) : monthOfDay (d + eraDays) = monthOfDay d := by
  simp only [monthOfDay, yearOfDay_add_era, isLeap_add_era, yearDayOfDay_add_era]

theorem dayOfMonthOfDay_add_era (d : Int) :
    dayOfMonthOfDay (d + eraDays) = dayOfMonthOfDay d := by
  simp only [dayOfMonthOfDay, yearOfDay_add_era, isLeap_add_era, yearDayOfDay_add_era,
    monthOfDay_add_era]

/-- Minutes in 400 years. -/
def eraMinutes : Nat := 146097 * 24 * 60

section Fixed

variable (offset t : Int)

theorem wallSeconds_add_era : Time.wallSeconds (.fixed offset) (t + eraMinutes * minute) =
    Time.wallSeconds (.fixed offset) t + eraDays * 86400 := by
  simp only [Time.wallSeconds, Time.unix, Location.fixed, eraMinutes, eraDays, minute, second]
  omega

theorem localDay_add_era : Time.localDay (.fixed offset) (t + eraMinutes * minute) =
    Time.localDay (.fixed offset) t + eraDays := by
  simp only [Time.localDay, wallSeconds_add_era]
  omega

/-- At a fixed offset a cron expression matches again after 400 years. -/
theorem cronMatches_add_era (expr : String) :
    cronMatches (.fixed offset) expr (t + eraMinutes * minute) =
      cronMatches (.fixed offset) expr t := by
  have hminute : Time.minuteOfHour (.fixed offset) (t + eraMinutes * minute) =
      Time.minuteOfHour (.fixed offset) t := by
    simp only [Time.minuteOfHour, wallSeconds_add_era, eraDays]
    omega
  have hhour : Time.hour (.fixed offset) (t + eraMinutes * minute) =
      Time.hour (.fixed offset) t := by
    simp only [Time.hour, wallSeconds_add_era, eraDays]
    omega
  have hweekday : Time.weekday (.fixed offset) (t + eraMinutes * minute) =
      Time.weekday (.fixed offset) t := by
    simp only [Time.weekday, localDay_add_era, eraDays]
    omega
  simp only [cronMatches, hminute, hhour, hweekday, Time.dayOfMonth, Time.month, localDay_add_era,
    dayOfMonthOfDay_add_era, monthOfDay_add_era]

end Fixed

/-! ## The scan -/

/-- The boundaries after now's minute at which the expression matches. -/
def cronBoundaries (loc : Location) (expr : String) (now : Int) : Set Int :=
  {b | Time.IsBoundary b ∧ Time.truncateMinute now < b ∧ cronMatches loc expr b = true}

/-- What an exact successor function gives: the first match, or nothing when there is none. -/
def IsCronSuccessor (loc : Location) (expr : String) (now : Int) : Option Int → Prop
  | some b => IsLeast (cronBoundaries loc expr now) b
  | none => cronBoundaries loc expr now = ∅

/-- Whether one of the first so many boundaries after now's minute matches. -/
def matchesWithin (loc : Location) (expr : String) (now : Int) (window : Nat) : Prop :=
  ∃ i < window, cronMatches loc expr (boundaryAfter now i) = true

theorem truncateMinute_lt_iff {now b : Int} (hb : Time.IsBoundary b) :
    Time.truncateMinute now < b ↔ now < b := by
  simp only [Time.IsBoundary, Time.truncateMinute, minute] at *
  omega

theorem cronBoundaries_eq (loc : Location) (expr : String) (now : Int) :
    cronBoundaries loc expr now =
      {b | Time.IsBoundary b ∧ now < b ∧ cronMatches loc expr b = true} := by
  ext b
  constructor
  · rintro ⟨hb, hlt, hp⟩
    exact ⟨hb, (truncateMinute_lt_iff hb).mp hlt, hp⟩
  · rintro ⟨hb, hlt, hp⟩
    exact ⟨hb, (truncateMinute_lt_iff hb).mpr hlt, hp⟩

theorem cronBoundaries_eq_empty_iff {loc : Location} {expr : String} {now : Int} :
    cronBoundaries loc expr now = ∅ ↔ ∀ i, cronMatches loc expr (boundaryAfter now i) = false := by
  rw [cronBoundaries_eq, Set.eq_empty_iff_forall_notMem]
  constructor
  · intro h i
    by_contra hmatch
    exact h _ ⟨isBoundary_boundaryAfter now i, lt_boundaryAfter now i, by simpa using hmatch⟩
  · rintro h b ⟨hb, hlt, hp⟩
    obtain ⟨i, rfl⟩ := exists_boundaryAfter hb hlt
    simp [h i] at hp

/-- At a fixed offset the boundaries of 400 years decide whether any boundary matches. -/
theorem cronBoundaries_fixed_eq_empty_iff {offset now : Int} {expr : String} :
    cronBoundaries (.fixed offset) expr now = ∅ ↔
      ¬ matchesWithin (.fixed offset) expr now eraMinutes := by
  have periodic : Function.Periodic
      (fun i : Nat => cronMatches (.fixed offset) expr (boundaryAfter now i)) eraMinutes := by
    intro i
    have hshift : boundaryAfter now (i + eraMinutes) =
        boundaryAfter now i + eraMinutes * minute := by
      simp only [boundaryAfter]
      push_cast
      ring
    simp only [hshift, cronMatches_add_era]
  rw [cronBoundaries_eq_empty_iff, matchesWithin]
  constructor
  · rintro h ⟨i, -, hi⟩
    rw [h i] at hi
    exact Bool.false_ne_true hi
  · intro h i
    by_contra hmatch
    refine h ⟨i % eraMinutes, Nat.mod_lt _ (by decide), ?_⟩
    rw [periodic.map_mod_nat i]
    simpa using hmatch

/-- What the scan of the window gives. -/
theorem nextCron_eq (loc : Location) (n : Node) (now : Int) :
    nextCron loc n now = ((List.range cronScanWindow).find? fun i =>
      cronMatches loc (cronExpr n) (boundaryAfter now i)).map (boundaryAfter now) := by
  unfold nextCron
  rw [← cronExpr]
  dsimp only
  generalize cronScanWindow = window
  split
  · rename_i hexpr
    have hnone : ((List.range window).find? fun i =>
        cronMatches loc (cronExpr n) (boundaryAfter now i)) = none := by
      rw [List.find?_eq_none]
      intro i _
      simp [cronMatches_of_trimSpace hexpr]
    rw [hnone, Option.map_none]
  · simp only [boundaryAfter]
    cases (List.range window).find? fun i : Nat =>
      cronMatches loc (cronExpr n) (Time.nextBoundary now + i * minute) <;> rfl

/-- A scan without a match in its window gives nothing. -/
theorem nextCron_eq_none {loc : Location} {n : Node} {now : Int}
    (h : ¬ matchesWithin loc (cronExpr n) now cronScanWindow) : nextCron loc n now = none := by
  rw [nextCron_eq]
  generalize cronScanWindow = window at h ⊢
  rw [Option.map_eq_none_iff, List.find?_eq_none]
  intro i hi hmatch
  exact h ⟨i, List.mem_range.mp hi, hmatch⟩

/-- The scan is the exact successor function when the expression matches within its window or
not within one cycle of the calendar. -/
theorem isCronSuccessor_nextCron_iff (offset : Int) (n : Node) (now : Int) :
    IsCronSuccessor (.fixed offset) (cronExpr n) now (nextCron (.fixed offset) n now) ↔
      (matchesWithin (.fixed offset) (cronExpr n) now eraMinutes →
        matchesWithin (.fixed offset) (cronExpr n) now cronScanWindow) := by
  rw [nextCron_eq]
  cases hfind : (List.range cronScanWindow).find? fun i =>
      cronMatches (.fixed offset) (cronExpr n) (boundaryAfter now i) with
  | none =>
    have hwindow : ¬ matchesWithin (.fixed offset) (cronExpr n) now cronScanWindow := by
      rintro ⟨i, hi, hmatch⟩
      exact List.find?_eq_none.mp hfind i (List.mem_range.mpr hi) hmatch
    simp only [Option.map_none, IsCronSuccessor, cronBoundaries_fixed_eq_empty_iff, hwindow,
      imp_false]
  | some i =>
    obtain ⟨hi, hleast⟩ := isLeast_of_find? hfind
    have hwindow : matchesWithin (.fixed offset) (cronExpr n) now cronScanWindow :=
      ⟨i, hi, hleast.1⟩
    simp only [Option.map_some, IsCronSuccessor, hwindow, implies_true, iff_true]
    rw [cronBoundaries_eq]
    exact isLeast_boundary_iff.mpr ⟨i, rfl, hleast⟩

/-! ## A monthly expression -/

/-- A trigger on the first of every month. -/
def monthlyNode : Node := ⟨"c", "trigger.cron", GoMap.ofList [("cron", .str "0 0 1 * *")]⟩

theorem cronExpr_monthlyNode : cronExpr monthlyNode = "0 0 1 * *" := by decide

theorem cronFieldMatches_one (val : Int) : cronFieldMatches "1" val = (some 1 == some val) := by
  have hstar : ¬ ("1" : String) = "*" := by decide
  have hstep : cutPrefix "*/" "1" = none := by decide
  have hlist : split "1" ',' = ["1"] := by decide
  have hrange : cutAt '-' "1" = none := by decide
  have hatoi : atoi "1" = some 1 := by decide
  simp only [cronFieldMatches, hstar, hstep, hlist, if_false, List.any_cons, List.any_nil,
    cronRangeMatches, hrange, hatoi, Bool.or_false]

theorem dayOfMonth_of_cronMatches_monthly {loc : Location} {t : Int}
    (h : cronMatches loc "0 0 1 * *" t = true) : Time.dayOfMonth loc t = 1 := by
  have hfields : fields "0 0 1 * *" = ["0", "0", "1", "*", "*"] := by decide
  simp only [cronMatches, hfields, cronFieldMatches_one, Bool.and_eq_true] at h
  exact (Option.some.inj (eq_of_beq h.1.1.2)).symm

/-- The first of January 1970 is over, and the next fortnight has no first of a month. -/
theorem not_matchesWithin_monthly :
    ¬ matchesWithin (.fixed 0) (cronExpr monthlyNode) day cronScanWindow := by
  rintro ⟨i, hi, hmatch⟩
  rw [cronExpr_monthlyNode] at hmatch
  have hday := dayOfMonth_of_cronMatches_monthly hmatch
  have hlocal : Time.localDay (.fixed 0) (boundaryAfter day i) =
      719163 + (((i + 1) / 1440 : Nat) : Int) := by
    simp only [Time.localDay, Time.wallSeconds, Time.unix, Location.fixed, boundaryAfter,
      Time.nextBoundary, Time.truncateMinute, day, minute, second, epochDay]
    omega
  have hlt : (i + 1) / 1440 < 15 := by
    simp only [cronScanWindow] at hi
    omega
  have hnever : ∀ q < 15, dayOfMonthOfDay (719163 + ((q : Nat) : Int)) ≠ 1 := by decide
  rw [Time.dayOfMonth, hlocal] at hday
  exact hnever _ hlt hday

/-- The first of February is the next match, and the scan does not find it. -/
theorem not_isCronSuccessor_monthly : ¬ ∀ (offset : Int) (n : Node) (now : Int),
    IsCronSuccessor (.fixed offset) (cronExpr n) now (nextCron (.fixed offset) n now) := by
  simp only [not_forall]
  refine ⟨0, monthlyNode, day, ?_⟩
  rw [nextCron_eq_none not_matchesWithin_monthly, IsCronSuccessor, cronBoundaries_eq_empty_iff,
    cronExpr_monthlyNode]
  intro hnever
  have hmatch : cronMatches (.fixed 0) "0 0 1 * *" (boundaryAfter day 43199) = true := by
    decide +kernel
  rw [hnever 43199] at hmatch
  exact Bool.false_ne_true hmatch

end Konnekt.Scheduler
