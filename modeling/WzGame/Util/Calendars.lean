import Mathlib.Data.Int.Interval
import Mathlib.Data.Set.Card

/-!
This module contains the fields of an instant in a time zone with a fixed offset. Instants and offsets are numbers of
milliseconds, days are counted from 1970-01-01 on, which is a Thursday. The calendar is the Gregorian one at all
times, whereas Java's one is Julian before 1582-10-15.
-/

namespace Calendars

variable (zone t : Int)

def day : Int := (t + zone) / 86400000

def clock : Int := (t + zone) % 86400000

def hourOfDay : Int := clock zone t / 3600000

def minute : Int := clock zone t / 60000 % 60

def second : Int := clock zone t / 1000 % 60

def dayOfWeek : Int := (day zone t + 4) % 7 + 1

def week : Int := (day zone t + 3) / 7

def weekday : Int := (day zone t + 3) % 7

def mondayMidnight (k : Int) : Int := 86400000 * (7 * k - 3) - zone

section Gregorian

def startOfYear (y : Int) : Int := 365 * (y - 1970) + (y - 1) / 4 - (y - 1) / 100 + (y - 1) / 400 - 477

def isLeap (y : Int) : Bool := y % 4 = 0 ∧ (y % 100 ≠ 0 ∨ y % 400 = 0)

def daysBeforeMonth : List Int := [0, 31, 59, 90, 120, 151, 181, 212, 243, 273, 304, 334]

def startOfMonth (y m : Int) : Int :=
  startOfYear y + daysBeforeMonth.getD m.toNat 0 + if isLeap y ∧ 2 ≤ m then 1 else 0

def year : Int :=
  let d := day zone t + 719162
  let n400 := d / 146097
  let n100 := d % 146097 / 36524
  let n4 := d % 146097 % 36524 / 1461
  let n1 := d % 146097 % 36524 % 1461 / 365
  400 * n400 + 100 * n100 + 4 * n4 + n1 + if n100 = 4 ∨ n1 = 4 then 0 else 1

def month : Int :=
  let y := year zone t
  let priorDays := day zone t - startOfYear y
  let correction := if day zone t < startOfMonth y 2 then 0 else if isLeap y then 1 else 2
  (12 * (priorDays + correction) + 373) / 367 - 1

def dayOfMonth : Int := day zone t - startOfMonth (year zone t) (month zone t) + 1

end Gregorian

section Fields

theorem clock_nonneg : 0 ≤ clock zone t := Int.emod_nonneg _ (by decide)

theorem clock_lt : clock zone t < 86400000 := Int.emod_lt_of_pos _ (by decide)

theorem eq_week_weekday_clock
    : t = 86400000 * (7 * week zone t + weekday zone t - 3) + clock zone t - zone := by
  unfold week weekday clock day
  omega

theorem weekday_nonneg : 0 ≤ weekday zone t := Int.emod_nonneg _ (by decide)

theorem weekday_lt : weekday zone t < 7 := Int.emod_lt_of_pos _ (by decide)

theorem dayOfWeek_eq : dayOfWeek zone t = if weekday zone t = 6 then 1 else weekday zone t + 2 := by
  unfold dayOfWeek weekday
  omega

theorem seconds_eq_clock
    : hourOfDay zone t * 3600 + minute zone t * 60 + second zone t = clock zone t / 1000 := by
  unfold hourOfDay minute second
  omega

theorem mondayMidnight_le_iff {zone t k : Int} : mondayMidnight zone k ≤ t ↔ k ≤ week zone t := by
  unfold mondayMidnight week day
  omega

theorem mondayMidnights_between {zone source target : Int}
    : { k | source < mondayMidnight zone k ∧ mondayMidnight zone k ≤ target }
        = { k | week zone source < k ∧ k ≤ week zone target } := by
  ext k
  have hsource := @mondayMidnight_le_iff zone source k
  have htarget := @mondayMidnight_le_iff zone target k
  simp only [Set.mem_ofPred_eq]
  omega

theorem ncard_mondayMidnights {zone source target : Int} (hle : source ≤ target)
    : (({ k | source < mondayMidnight zone k ∧ mondayMidnight zone k ≤ target }.ncard : Nat) : Int)
        = week zone target - week zone source := by
  have hweeks : week zone source ≤ week zone target := by
    unfold week day
    omega
  have hweeksBetween : { k | week zone source < k ∧ k ≤ week zone target }
      = ((Finset.Ioc (week zone source) (week zone target) : Finset Int) : Set Int) := by
    rw [Finset.coe_Ioc]
    rfl
  rw [mondayMidnights_between, hweeksBetween, Set.ncard_coe_finset, Int.card_Ioc_of_le _ _ hweeks]

theorem day_eq_iff {zone t u : Int}
    : day zone t = day zone u ↔ clock zone (min t u) + (max t u - min t u) < 86400000 := by
  unfold day clock
  omega

theorem date_eq_iff {zone t u : Int}
    : year zone t = year zone u ∧ month zone t = month zone u ∧ dayOfMonth zone t = dayOfMonth zone u
        ↔ day zone t = day zone u := by
  constructor
  . rintro ⟨hyear, hmonth, hday⟩
    rw [dayOfMonth, dayOfMonth, hyear, hmonth] at hday
    omega
  . intro hday
    have hyear : year zone t = year zone u := by
      rw [year, year, hday]
    have hmonth : month zone t = month zone u := by
      rw [month, month, hday, hyear]
    refine ⟨hyear, hmonth, ?_⟩
    rw [dayOfMonth, dayOfMonth, hday, hyear, hmonth]

end Fields

end Calendars
