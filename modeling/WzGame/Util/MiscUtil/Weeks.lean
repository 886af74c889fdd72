import Mathlib.Tactic.IntervalCases
import WzGame.Util.Calendars
import WzGame.Util.FixedInts

/-!
This module contains the arithmetic on weeks of the class `MiscUtil`. A `Calendar` is the instant that it is set to, in
the time zone that `Calendar.getInstance` takes.
-/

namespace WzGame

namespace MiscUtil

open Calendars

-- a time zone with a fixed offset, which is an `int` of milliseconds
abbrev Zone := Int32

variable (zone : Zone)

section Fields

variable (cal : Int64)

def getSecondsOfDay : Int32 :=
  let hour := Int32.ofInt (hourOfDay zone.toInt cal.toInt)
  let minute := Int32.ofInt (minute zone.toInt cal.toInt)
  let second := Int32.ofInt (second zone.toInt cal.toInt)
  hour * 3600 + minute * 60 + second

def getDayOfWeek : Int32 :=
  let dayOfWeek := Int32.ofInt (dayOfWeek zone.toInt cal.toInt) - 1
  if dayOfWeek = 0 then 7 else dayOfWeek

end Fields

def getWeekOffset (source target : Int64) : Int32 :=
  let fromWeekBegin :=
    source - ((getDayOfWeek zone source - 1) * 24 * 36000).toInt64 * 1000 - (getSecondsOfDay zone source).toInt64 * 1000
  let toWeekBegin :=
    target - ((getDayOfWeek zone target - 1) * 24 * 36000).toInt64 * 1000 - (getSecondsOfDay zone target).toInt64 * 1000
  let timeIntv := toWeekBegin - fromWeekBegin
  ((timeIntv + 24 * 36000 * 1000) / (7 * 24 * 36000 * 1000)).toInt32

def isSameWeekDates (time1 time2 : Int64) : Bool :=
  let weekBegin1 :=
    time1 - (getDayOfWeek zone time1 - 1).toInt64 * (24 * 3600 * 1000) - (getSecondsOfDay zone time1).toInt64 * 1000
  let weekBegin2 :=
    time2 - (getDayOfWeek zone time2 - 1).toInt64 * (24 * 3600 * 1000) - (getSecondsOfDay zone time2).toInt64 * 1000
  (weekBegin1 - weekBegin2).abs < 24 * 3600 * 1000

def mondaysBetween (source target : Int64) : Int :=
  week zone.toInt target.toInt - week zone.toInt source.toInt

theorem mondaysBetween_eq_ncard {source target : Int64} (hle : source.toInt ≤ target.toInt)
    : mondaysBetween zone source target
        = { k | source.toInt < mondayMidnight zone.toInt k ∧ mondayMidnight zone.toInt k ≤ target.toInt }.ncard :=
  (ncard_mondayMidnights hle).symm

theorem mondaysBetween_swap (source target : Int64)
    : mondaysBetween zone target source = -mondaysBetween zone source target := by
  unfold mondaysBetween
  omega

structure WeekArithmetic (source target : Int64) : Prop where
  counts : (getWeekOffset zone source target).toInt = mondaysBetween zone source target
  zero : getWeekOffset zone source target = 0 ↔ isSameWeekDates zone source target
  negates : (getWeekOffset zone target source).toInt = -(getWeekOffset zone source target).toInt

section Spec

variable (cal : Int64)

theorem getSecondsOfDay_eq : getSecondsOfDay zone cal = Int32.ofInt (clock zone.toInt cal.toInt / 1000) := by
  rw [← seconds_eq_clock, Int32.ofInt_add, Int32.ofInt_add, Int32.ofInt_mul, Int32.ofInt_mul]
  rfl

theorem getDayOfWeek_eq : getDayOfWeek zone cal = Int32.ofInt (weekday zone.toInt cal.toInt + 1) := by
  have hnonneg := weekday_nonneg zone.toInt cal.toInt
  have hlt := weekday_lt zone.toInt cal.toInt
  rw [getDayOfWeek, dayOfWeek_eq]
  generalize weekday zone.toInt cal.toInt = d at hnonneg hlt
  interval_cases d <;> rfl

theorem secondsOfDay_millis
    : (getSecondsOfDay zone cal).toInt64 * 1000 = Int64.ofInt (clock zone.toInt cal.toInt / 1000 * 1000) := by
  have hnonneg := clock_nonneg zone.toInt cal.toInt
  have hlt := clock_lt zone.toInt cal.toInt
  rw [getSecondsOfDay_eq, Int32.toInt64_ofInt_of_fits (by omega) (by omega), Int64.ofInt_mul]
  rfl

theorem getDayOfWeek_sub_one : getDayOfWeek zone cal - 1 = Int32.ofInt (weekday zone.toInt cal.toInt) := by
  rw [getDayOfWeek_eq, Int32.ofInt_add]
  exact Int32.add_sub_cancel _ _

theorem dayOfWeek_tenDays
    : ((getDayOfWeek zone cal - 1) * 24 * 36000).toInt64 * 1000
        = Int64.ofInt (864000000 * weekday zone.toInt cal.toInt) := by
  have hnonneg := weekday_nonneg zone.toInt cal.toInt
  have hlt := weekday_lt zone.toInt cal.toInt
  have hseconds : (getDayOfWeek zone cal - 1) * 24 * 36000
      = Int32.ofInt (weekday zone.toInt cal.toInt * 24 * 36000) := by
    rw [getDayOfWeek_sub_one, Int32.ofInt_mul, Int32.ofInt_mul]
    rfl
  have hmillis : 864000000 * weekday zone.toInt cal.toInt = weekday zone.toInt cal.toInt * 24 * 36000 * 1000 := by
    omega
  rw [hseconds, Int32.toInt64_ofInt_of_fits (by omega) (by omega), hmillis, Int64.ofInt_mul _ 1000]
  rfl

theorem dayOfWeek_days
    : (getDayOfWeek zone cal - 1).toInt64 * (24 * 3600 * 1000)
        = Int64.ofInt (86400000 * weekday zone.toInt cal.toInt) := by
  have hnonneg := weekday_nonneg zone.toInt cal.toInt
  have hlt := weekday_lt zone.toInt cal.toInt
  rw [getDayOfWeek_sub_one, Int32.toInt64_ofInt_of_fits (by omega) (by omega), Int.mul_comm, Int64.ofInt_mul]
  rfl

end Spec

section WeekOffset

variable (source target : Int64)

def dividend : Int :=
  86400000 * (7 * mondaysBetween zone source target
    - 9 * (weekday zone.toInt target.toInt - weekday zone.toInt source.toInt) + 10)
    + (clock zone.toInt target.toInt % 1000 - clock zone.toInt source.toInt % 1000)

theorem dividend_eq
    : target.toInt - 864000000 * weekday zone.toInt target.toInt - clock zone.toInt target.toInt / 1000 * 1000
        - (source.toInt - 864000000 * weekday zone.toInt source.toInt - clock zone.toInt source.toInt / 1000 * 1000)
        + 864000000
      = dividend zone source target := by
  have hsource := eq_week_weekday_clock zone.toInt source.toInt
  have htarget := eq_week_weekday_clock zone.toInt target.toInt
  unfold dividend mondaysBetween
  omega

theorem getWeekOffset_eq
    : getWeekOffset zone source target = (Int64.ofInt (dividend zone source target) / 6048000000).toInt32 := by
  rw [← dividend_eq]
  simp only [Int64.ofInt_add, Int64.ofInt_sub, Int64.ofInt_toInt]
  rw [← dayOfWeek_tenDays, ← dayOfWeek_tenDays, ← secondsOfDay_millis, ← secondsOfDay_millis]
  rfl

theorem toInt_getWeekOffset
    : (getWeekOffset zone source target).toInt
        = (Int64.ofInt (dividend zone source target)).toInt.tdiv 6048000000 := by
  have hdivisor : (6048000000 : Int64).toInt = 6048000000 := rfl
  have hle := (Int64.ofInt (dividend zone source target)).le_toInt
  have hlt := (Int64.ofInt (dividend zone source target)).toInt_lt
  rw [getWeekOffset_eq, Int64.toInt_toInt32, Int64.toInt_div_of_ne_right _ _ (by decide), hdivisor]
  generalize (Int64.ofInt (dividend zone source target)).toInt = n at hle hlt
  have hcases := Int.tdiv_cases n 6048000000
  exact Int.bmod_eq_of_le (by omega) (by omega)

end WeekOffset

section SameWeek

variable {zone : Zone} {source target : Int64}

theorem isSameWeekDates_of_week_eq (hweek : week zone.toInt source.toInt = week zone.toInt target.toInt)
    : isSameWeekDates zone source target := by
  have hsource := eq_week_weekday_clock zone.toInt source.toInt
  have htarget := eq_week_weekday_clock zone.toInt target.toInt
  obtain ⟨rest, hrest, habove, hbelow⟩ : ∃ rest : Int,
      source.toInt - 86400000 * weekday zone.toInt source.toInt - clock zone.toInt source.toInt / 1000 * 1000
        - (target.toInt - 86400000 * weekday zone.toInt target.toInt - clock zone.toInt target.toInt / 1000 * 1000)
        = rest ∧ -1000 < rest ∧ rest < 1000 := by
    exact ⟨_, rfl, by omega, by omega⟩
  have hdifference : isSameWeekDates zone source target = decide ((Int64.ofInt rest).abs < 86400000) := by
    rw [← hrest]
    simp only [Int64.ofInt_sub, Int64.ofInt_toInt]
    rw [← dayOfWeek_days, ← dayOfWeek_days, ← secondsOfDay_millis, ← secondsOfDay_millis]
    rfl
  have habs := (Int64.ofInt rest).toInt_abs_le
  have hday : (86400000 : Int64).toInt = 86400000 := rfl
  rw [Int64.toInt_ofInt_of_le (by omega) (by omega)] at habs
  rw [hdifference, decide_eq_true_iff, Int64.lt_iff_toInt_lt, hday]
  omega

theorem getWeekOffset_of_week_eq (hweek : week zone.toInt source.toInt = week zone.toInt target.toInt)
    : getWeekOffset zone source target = 0 := by
  have hzero : (0 : Int32).toInt = 0 := rfl
  have hcases := Int.tdiv_cases (dividend zone source target) 6048000000
  have hdividend : -6048000000 < dividend zone source target ∧ dividend zone source target < 6048000000 := by
    have hsource := weekday_nonneg zone.toInt source.toInt
    have htarget := weekday_nonneg zone.toInt target.toInt
    have hsource' := weekday_lt zone.toInt source.toInt
    have htarget' := weekday_lt zone.toInt target.toInt
    unfold dividend mondaysBetween
    omega
  apply Int32.toInt_inj.mp
  rw [toInt_getWeekOffset, Int64.toInt_ofInt_of_le (by omega) (by omega), hzero]
  omega

theorem nextDay_of_counts (hcounts : (getWeekOffset zone source target).toInt = mondaysBetween zone source target)
    (hne : mondaysBetween zone source target ≠ 0)
    : mondaysBetween zone source target = 1
      ∧ weekday zone.toInt target.toInt - weekday zone.toInt source.toInt = -6 := by
  have hsource := weekday_nonneg zone.toInt source.toInt
  have htarget := weekday_nonneg zone.toInt target.toInt
  have hsource' := weekday_lt zone.toInt source.toInt
  have htarget' := weekday_lt zone.toInt target.toInt
  obtain ⟨wraps, hwraps⟩ := Int64.exists_toInt_ofInt (dividend zone source target)
  have hle := (Int64.ofInt (dividend zone source target)).le_toInt
  have hlt := (Int64.ofInt (dividend zone source target)).toInt_lt
  rw [toInt_getWeekOffset, Int.tdiv_cases] at hcounts
  generalize (Int64.ofInt (dividend zone source target)).toInt = n at hwraps hle hlt hcounts
  unfold dividend at hwraps
  generalize mondaysBetween zone source target = k at hwraps hcounts hne
  -- a week of the quotient is ten weeks, so a dividend that overflows is too far from this one
  have hexact : wraps = 0 := by omega
  rw [hexact] at hwraps
  omega

/-- On all pairs: the law holds within a week alone. -/
theorem weekArithmetic_iff (zone : Zone) (source target : Int64)
    : WeekArithmetic zone source target ↔ week zone.toInt source.toInt = week zone.toInt target.toInt := by
  constructor
  . rintro ⟨hcounts, -, hnegates⟩
    by_contra hne
    have hforth : mondaysBetween zone source target ≠ 0 := by
      unfold mondaysBetween
      omega
    have hback := mondaysBetween_swap zone source target
    -- both directions count right, so each of the two instants is on a Sunday and on a Monday
    have hnext := nextDay_of_counts hcounts hforth
    have hprevious := @nextDay_of_counts zone target source (by rw [hnegates, hcounts, hback]) (by omega)
    omega
  . intro hweek
    have hzero := getWeekOffset_of_week_eq hweek
    have hback := getWeekOffset_of_week_eq hweek.symm
    refine ⟨?_, ?_, ?_⟩
    . rw [hzero, mondaysBetween, hweek, Int.sub_self]
      rfl
    . simp [hzero, isSameWeekDates_of_week_eq hweek]
    . rw [hzero, hback]
      rfl

theorem weekArithmetic_counterexample : ¬ WeekArithmetic 0 345600000 950400000 := by
  rintro ⟨hcounts, -, -⟩
  have hzero : (getWeekOffset 0 345600000 950400000).toInt = 0 := by decide
  have hone : mondaysBetween 0 345600000 950400000 = 1 := by decide
  rw [hzero, hone] at hcounts
  contradiction

end SameWeek

end MiscUtil

end WzGame
