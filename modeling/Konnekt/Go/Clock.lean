import Konnekt.Go.Number

/-!
# Instants, zones and the calendar

An instant is a number of nanoseconds since the Unix epoch and a duration a number
of nanoseconds. A location answers
which zone is in effect at an instant; the wall clock and the calendar are read
off the seconds shifted by that zone's offset. Days are counted from the first of
January of the year 1.
-/

namespace Go

/-- `time.Second`. -/
def second : Int := 1000000000

/-- `time.Minute`. -/
def minute : Int := 60000000000

/-- `24 * time.Hour`. -/
def day : Int := 86400000000000

/-! ## Minute boundaries -/

namespace Time

/-- `Time.Sub`: the difference, saturated to the range of a duration. -/
def sub (t u : Int) : Int := max minInt64 (min maxInt64 (t - u))

/-- `Time.Truncate(time.Minute)`. -/
def truncateMinute (t : Int) : Int := t - t % minute

/-- The instant is a minute boundary. -/
def IsBoundary (t : Int) : Prop := t % minute = 0

instance (t : Int) : Decidable (IsBoundary t) := inferInstanceAs (Decidable (_ = _))

/-- The first minute boundary after an instant. -/
def nextBoundary (t : Int) : Int := truncateMinute t + minute

theorem isBoundary_nextBoundary (t : Int) : IsBoundary (nextBoundary t) := by
  simp only [IsBoundary, nextBoundary, truncateMinute, minute]
  omega

theorem lt_nextBoundary (t : Int) : t < nextBoundary t := by
  simp only [nextBoundary, truncateMinute, minute]
  omega

/-- Every boundary after an instant is the next one or later. -/
theorem nextBoundary_le {t b : Int} (hb : IsBoundary b) (h : t < b) : nextBoundary t ≤ b := by
  simp only [IsBoundary, nextBoundary, truncateMinute, minute] at *
  omega

/-- Boundaries are whole minutes apart. -/
theorem exists_nextBoundary_add {t b : Int} (hb : IsBoundary b) (h : t < b) :
    ∃ i : Nat, b = nextBoundary t + i * minute := by
  have hle := nextBoundary_le hb h
  have hn := isBoundary_nextBoundary t
  refine ⟨((b - nextBoundary t) / minute).toNat, ?_⟩
  simp only [IsBoundary, minute] at *
  omega

theorem isBoundary_add_mul {b : Int} (hb : IsBoundary b) (i : Int) :
    IsBoundary (b + i * minute) := by
  simp only [IsBoundary, minute] at *
  omega

/-- Saturation does not matter for durations within the range. -/
theorem sub_lt_iff {t u d : Int} (hlow : minInt64 < d) (hhigh : d ≤ maxInt64) :
    sub t u < d ↔ t - u < d := by
  simp only [sub, minInt64, maxInt64] at *
  omega

end Time

/-! ## Zones -/

/-- A zone in effect from `start` up to `stop`, in seconds since the epoch. -/
structure Zone where
  /-- Seconds east of UTC. -/
  offset : Int
  start : Int
  stop : Int
  deriving DecidableEq

/-- `time.Location`: the zone in effect at a number of seconds since the epoch. -/
structure Location where
  zone : Int → Zone

/-- `time.FixedZone`. -/
def Location.fixed (offset : Int) : Location := ⟨fun _ => ⟨offset, minInt64, maxInt64⟩⟩

/-! ## The calendar -/

/-- Days before the first of January of a year. -/
def daysBeforeYear (y : Int) : Int := 365 * (y - 1) + (y - 1) / 4 - (y - 1) / 100 + (y - 1) / 400

/-- The year a day falls in: cut off whole cycles of 400, 100, 4 and 1 years. -/
def yearOfDay (d : Int) : Int :=
  let era := d / 146097
  let d := d % 146097
  let c := min 3 (d / 36524)
  let d := d - 36524 * c
  let q := d / 1461
  let d := d - 1461 * q
  400 * era + 100 * c + 4 * q + min 3 (d / 365) + 1

/-- The day of the year, counted from 1. -/
def yearDayOfDay (d : Int) : Int := d - daysBeforeYear (yearOfDay d) + 1

def isLeap (y : Int) : Bool := y % 4 == 0 && (y % 100 != 0 || y % 400 == 0)

/-- Days before the first of a month, counted from 1. -/
def daysBeforeMonth (leap : Bool) (m : Int) : Int :=
  let days := match m with
    | 1 => 0 | 2 => 31 | 3 => 59 | 4 => 90 | 5 => 120 | 6 => 151
    | 7 => 181 | 8 => 212 | 9 => 243 | 10 => 273 | 11 => 304 | _ => 334
  if leap ∧ 2 < m then days + 1 else days

/-- The month a day falls in: the last one that begins no later. -/
def monthOfDay (d : Int) : Int :=
  let leap := isLeap (yearOfDay d)
  let yday := yearDayOfDay d - 1
  (([12, 11, 10, 9, 8, 7, 6, 5, 4, 3, 2] : List Int).find? fun m =>
    daysBeforeMonth leap m ≤ yday).getD 1

/-- The day of the month, counted from 1. -/
def dayOfMonthOfDay (d : Int) : Int :=
  yearDayOfDay d - daysBeforeMonth (isLeap (yearOfDay d)) (monthOfDay d)

/-- The day a date names. -/
def dayOfDate (y m d : Int) : Int := daysBeforeYear y + daysBeforeMonth (isLeap y) m + d - 1

/-- A day is named by its own date. -/
@[simp] theorem dayOfDate_of_day (d : Int) :
    dayOfDate (yearOfDay d) (monthOfDay d) (dayOfMonthOfDay d) = d := by
  simp only [dayOfDate, dayOfMonthOfDay, yearDayOfDay]
  omega

/-- Year and day of the year determine the day. -/
theorem day_eq_of_year_yearDay {d e : Int} (hy : yearOfDay d = yearOfDay e)
    (hd : yearDayOfDay d = yearDayOfDay e) : d = e := by
  simp only [yearDayOfDay, hy] at hd
  omega

/-- Days before the first of January 1970. -/
def epochDay : Int := 719162

/-! ## The wall clock -/

namespace Time

variable (loc : Location) (t : Int)

/-- Seconds since the epoch. -/
def unix : Int := t / second

/-- Seconds since the epoch on the wall clock. -/
def wallSeconds : Int := unix t + (loc.zone (unix t)).offset

/-- The day on the calendar. -/
def localDay : Int := wallSeconds loc t / 86400 + epochDay

/-- `Time.Year`. -/
def year : Int := yearOfDay (localDay loc t)

/-- `Time.YearDay`. -/
def yearDay : Int := yearDayOfDay (localDay loc t)

/-- `Time.Month`. -/
def month : Int := monthOfDay (localDay loc t)

/-- `Time.Day`. -/
def dayOfMonth : Int := dayOfMonthOfDay (localDay loc t)

/-- `Time.Weekday`, with 0 for Sunday. -/
def weekday : Int := (localDay loc t + 1) % 7

/-- `Time.Hour`. -/
def hour : Int := wallSeconds loc t % 86400 / 3600

/-- `Time.Minute`. -/
def minuteOfHour : Int := wallSeconds loc t % 3600 / 60

/-- `time.Date(year, month, day, hour, min, 0, 0, loc)`: the instant the wall clock shows
this, by the offset in effect there. -/
def date (y m d h mi : Int) : Int :=
  let wall := (dayOfDate y m d - epochDay) * 86400 + h * 3600 + mi * 60
  let z := loc.zone wall
  let utc := wall - z.offset
  if z.offset ≠ 0 ∧ (utc < z.start ∨ z.stop ≤ utc) then
    (wall - (loc.zone utc).offset) * second
  else utc * second

/-- Same year and day of the year means same day. -/
theorem sameDay_iff (t u : Int) :
    year loc t = year loc u ∧ yearDay loc t = yearDay loc u ↔ localDay loc t = localDay loc u := by
  constructor
  · rintro ⟨hy, hd⟩
    exact day_eq_of_year_yearDay hy hd
  · intro h
    simp only [year, yearDay, h, and_self]

end Time

end Go
