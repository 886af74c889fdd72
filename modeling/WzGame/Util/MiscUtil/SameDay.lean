import WzGame.Util.Calendars
import WzGame.Util.FixedInts
import WzGame.Util.MiscUtil.Weeks

/-!
This module contains the tests of the class `MiscUtil` whether two instants are on the same day.
-/

namespace WzGame

namespace MiscUtil

open Calendars

variable (zone : Zone)

/--
`isSameDay(Date date1, Date date2)`, where a `null` is `none`. Before 1582-10-15 the fields of Java's calendar are
Julian ones. They differ from these, but they tell the same days apart.
-/
def isSameDay (date1 date2 : Option Int64) : Bool :=
  match date1, date2 with
  | none, none => true
  | none, some _ => false
  | some _, none => false
  | some cal1, some cal2 =>
    year zone.toInt cal1.toInt = year zone.toInt cal2.toInt
      ∧ month zone.toInt cal1.toInt = month zone.toInt cal2.toInt
      ∧ dayOfMonth zone.toInt cal1.toInt = dayOfMonth zone.toInt cal2.toInt

-- `isSameDay(int time1, int time2)`, where the product is an `int`.
def isSameDaySeconds (time1 time2 : Int32) : Bool :=
  isSameDay zone (some (time1 * 1000).toInt64) (some (time2 * 1000).toInt64)

structure SameDayLaw (time1 time2 : Int32) : Prop where
  dates : isSameDaySeconds zone time1 time2
    = isSameDay zone (some (1000 * time1.toInt64)) (some (1000 * time2.toInt64))
  calendarDay : isSameDaySeconds zone time1 time2
    ↔ day zone.toInt (1000 * time1.toInt) = day zone.toInt (1000 * time2.toInt)

-- how often `2 ^ 32` is lost when the product is cut to an `int`
def lost (time : Int32) : Int := (1000 * time.toInt + 2 ^ 31) / 2 ^ 32

def kept (time : Int32) : Int := 1000 * time.toInt - 2 ^ 32 * lost time

def earlierClock (t u : Int) : Int := clock zone.toInt (min t u)

def gap (t u : Int) : Int := max t u - min t u

/-- If both instants are moved alike, then the days that end while they pass do not end between them at one of the two
places alone. Else they are on different days at both places. -/
def KeepsDays (time1 time2 : Int32) : Prop :=
  let there := earlierClock zone (1000 * time1.toInt) (1000 * time2.toInt)
  let here := earlierClock zone (kept time1) (kept time2)
  if lost time1 = lost time2 then
    86400000 ≤ min there here + gap (1000 * time1.toInt) (1000 * time2.toInt)
      ∨ max there here + gap (1000 * time1.toInt) (1000 * time2.toInt) < 86400000
  else
    86400000 ≤ there + gap (1000 * time1.toInt) (1000 * time2.toInt)
      ∧ 86400000 ≤ here + gap (kept time1) (kept time2)

section Spec

variable {zone : Zone}

theorem isSameDay_some {cal1 cal2 : Int64}
    : isSameDay zone (some cal1) (some cal2) ↔ day zone.toInt cal1.toInt = day zone.toInt cal2.toInt := by
  rw [isSameDay, decide_eq_true_iff, date_eq_iff]

theorem toInt_seconds (time : Int32) : (time * 1000).toInt64.toInt = kept time := by
  have hthousand : (1000 : Int32).toInt = 1000 := rfl
  rw [Int32.toInt_toInt64, Int32.toInt_mul, hthousand, Int.bmod_def]
  unfold kept lost
  omega

theorem toInt_millis (time : Int32) : (1000 * time.toInt64).toInt = 1000 * time.toInt := by
  have hthousand : (1000 : Int64).toInt = 1000 := rfl
  have hle := time.le_toInt
  have hlt := time.toInt_lt
  rw [Int64.toInt_mul, hthousand, Int32.toInt_toInt64]
  exact Int.bmod_eq_of_le (by omega) (by omega)

theorem isSameDaySeconds_iff {time1 time2 : Int32}
    : isSameDaySeconds zone time1 time2 ↔ day zone.toInt (kept time1) = day zone.toInt (kept time2) := by
  rw [isSameDaySeconds, isSameDay_some, toInt_seconds, toInt_seconds]

theorem isSameDay_millis_iff {time1 time2 : Int32}
    : isSameDay zone (some (1000 * time1.toInt64)) (some (1000 * time2.toInt64))
        ↔ day zone.toInt (1000 * time1.toInt) = day zone.toInt (1000 * time2.toInt) := by
  rw [isSameDay_some, toInt_millis, toInt_millis]

theorem sameDayLaw_iff_day {time1 time2 : Int32}
    : SameDayLaw zone time1 time2
        ↔ (day zone.toInt (kept time1) = day zone.toInt (kept time2)
            ↔ day zone.toInt (1000 * time1.toInt) = day zone.toInt (1000 * time2.toInt)) := by
  rw [← isSameDaySeconds_iff]
  constructor
  . intro hlaw
    exact hlaw.calendarDay
  . intro hday
    refine ⟨?_, hday⟩
    rw [Bool.eq_iff_iff, hday, isSameDay_millis_iff]

/-- On all numbers of seconds, negative ones included. -/
theorem sameDayLaw_iff (zone : Zone) (time1 time2 : Int32)
    : SameDayLaw zone time1 time2 ↔ KeepsDays zone time1 time2 := by
  rw [sameDayLaw_iff_day, day_eq_iff, day_eq_iff]
  have hthere := clock_nonneg zone.toInt (min (1000 * time1.toInt) (1000 * time2.toInt))
  have hhere := clock_nonneg zone.toInt (min (kept time1) (kept time2))
  unfold KeepsDays earlierClock gap
  dsimp only
  split
  . next hlost =>
    -- both are moved by the same amount, so the time between them is the same
    have hgap : max (kept time1) (kept time2) - min (kept time1) (kept time2)
        = max (1000 * time1.toInt) (1000 * time2.toInt) - min (1000 * time1.toInt) (1000 * time2.toInt) := by
      unfold kept
      omega
    rw [hgap]
    omega
  . next hlost =>
    -- moved apart by more than a day, so they are not close at both places
    have hfar : ¬ (max (kept time1) (kept time2) - min (kept time1) (kept time2) < 86400000
        ∧ max (1000 * time1.toInt) (1000 * time2.toInt) - min (1000 * time1.toInt) (1000 * time2.toInt)
          < 86400000) := by
      unfold kept
      omega
    omega

theorem sameDayLaw_of_le {time1 time2 : Int32} (hnonneg1 : 0 ≤ time1.toInt) (hle1 : time1.toInt ≤ 2147483)
    (hnonneg2 : 0 ≤ time2.toInt) (hle2 : time2.toInt ≤ 2147483) : SameDayLaw zone time1 time2 := by
  have hkept : ∀ time : Int32, 0 ≤ time.toInt → time.toInt ≤ 2147483 → kept time = 1000 * time.toInt := by
    intro time hnonneg hle
    unfold kept lost
    omega
  rw [sameDayLaw_iff_day, hkept time1 hnonneg1 hle1, hkept time2 hnonneg2 hle2]

theorem sameDayLaw_counterexample : ¬ SameDayLaw 0 2147483 2147484 := by
  intro hlaw
  have hdates := hlaw.dates
  have hfalse : isSameDaySeconds 0 2147483 2147484 = false := by decide
  have htrue : isSameDay 0 (some (1000 * (2147483 : Int32).toInt64)) (some (1000 * (2147484 : Int32).toInt64))
      = true := by
    decide
  rw [hfalse, htrue] at hdates
  contradiction

end Spec

end MiscUtil

end WzGame
