import Mathlib.Algebra.Order.Ring.Int
import Mathlib.Tactic.IntervalCases

/-!
# The Gregorian calendar

Dates of the proleptic Gregorian calendar, and the number of days from 1 January 1970. The
number is fixed by two facts: it is zero on that day, and one more on the next date.

## Main definitions

* `Date` — a year, a month and a day of that month.
* `Date.next` — the date of the following day.
* `Date.dayNumber` — the days since the epoch.
* `Date.marchYear`, `Date.marchDay` — the year that begins in March, and the days of it that
  have passed.

## Main results

* `Date.dayNumber_next` — a day is one day long.
* `Date.leap_of_marchDay` — only a leap day is the 366th day of its year.
-/

namespace Zodia.Lib

def IsLeapYear (year : ℤ) : Prop := 4 ∣ year ∧ (¬ 100 ∣ year ∨ 400 ∣ year)

instance (year : ℤ) : Decidable (IsLeapYear year) :=
  inferInstanceAs (Decidable (4 ∣ year ∧ (¬ 100 ∣ year ∨ 400 ∣ year)))

def daysInMonth (year : ℤ) (month : ℕ) : ℕ :=
  match month with
  | 2 => if IsLeapYear year then 29 else 28
  | 4 | 6 | 9 | 11 => 30
  | _ => 31

@[ext] structure Date where
  year : ℤ
  month : ℕ
  day : ℕ
  month_pos : 1 ≤ month
  month_le : month ≤ 12
  day_pos : 1 ≤ day
  day_le : day ≤ daysInMonth year month
  deriving DecidableEq

theorem one_le_daysInMonth (year : ℤ) (month : ℕ) : 1 ≤ daysInMonth year month := by
  unfold daysInMonth
  split
  · split_ifs <;> omega
  all_goals omega

theorem daysInMonth_le (year : ℤ) (month : ℕ) : daysInMonth year month ≤ 31 := by
  unfold daysInMonth
  split
  · split_ifs <;> omega
  all_goals omega

namespace Date

/-- 1 January 1970. -/
def epoch : Date := ⟨1970, 1, 1, by decide, by decide, by decide, by decide⟩

/-- The date of the following day. -/
def next (d : Date) : Date :=
  if more : d.day < daysInMonth d.year d.month then
    ⟨d.year, d.month, d.day + 1, d.month_pos, d.month_le, by omega, more⟩
  else if within : d.month < 12 then
    ⟨d.year, d.month + 1, 1, by omega, within, le_rfl, one_le_daysInMonth _ _⟩
  else ⟨d.year + 1, 1, 1, le_rfl, by omega, le_rfl, one_le_daysInMonth _ _⟩

/-- The days since the epoch. The years are counted from March, so that a leap day is the last
day of its year. -/
def dayNumber (d : Date) : ℤ :=
  let y := if d.month ≤ 2 then d.year - 1 else d.year
  let m := if d.month ≤ 2 then d.month + 9 else d.month - 3
  365 * y + y / 4 - y / 100 + y / 400 + ((153 * m + 2) / 5 : ℕ) + d.day - 719469

theorem dayNumber_epoch : epoch.dayNumber = 0 := by decide

/-- The following day has the following number. -/
theorem dayNumber_next (d : Date) : d.next.dayNumber = d.dayNumber + 1 := by
  obtain ⟨year, month, day, month_pos, month_le, day_pos, day_le⟩ := d
  by_cases more : day < daysInMonth year month
  · rw [next, dif_pos more]
    simp only [dayNumber]
    omega
  · -- the last day of its month
    have last : day = daysInMonth year month := by omega
    by_cases within : month < 12
    · rw [next, dif_neg more, dif_pos within]
      interval_cases month
      case «2» =>
        have length : (day : ℤ) = if IsLeapYear year then 29 else 28 := by
          rw [last]
          simp only [daysInMonth]
          split_ifs <;> rfl
        simp only [dayNumber]
        split_ifs at length with leap
        · obtain ⟨four, century⟩ := leap
          simp
          omega
        · rw [IsLeapYear, not_and_or, not_or, not_not] at leap
          simp
          omega
      all_goals
        simp only [daysInMonth] at last
        simp [dayNumber]
        omega
    · rw [next, dif_neg more, dif_neg within]
      obtain rfl : month = 12 := by omega
      simp only [daysInMonth] at last
      simp [dayNumber]
      omega

/-! ## Years from March -/

/-- The year that the date belongs to, when years begin in March. -/
def marchYear (d : Date) : ℤ := if d.month ≤ 2 then d.year - 1 else d.year

/-- The days of that year that have passed. -/
def marchDay (d : Date) : ℤ :=
  ((153 * (if d.month ≤ 2 then d.month + 9 else d.month - 3) + 2) / 5 : ℕ) + d.day - 1

theorem dayNumber_eq (d : Date) :
    d.dayNumber = 365 * d.marchYear + d.marchYear / 4 - d.marchYear / 100 + d.marchYear / 400 +
      d.marchDay - 719468 := by
  simp only [dayNumber, marchYear, marchDay]
  omega

theorem marchDay_nonneg (d : Date) : 0 ≤ d.marchDay := by
  have day_pos := d.day_pos
  simp only [marchDay]
  omega

/-- Only a leap day is the 366th day of its year. -/
theorem leap_of_marchDay (d : Date) :
    d.marchDay ≤ 364 ∨ d.marchDay = 365 ∧ IsLeapYear (d.marchYear + 1) := by
  obtain ⟨year, month, day, month_pos, month_le, day_pos, day_le⟩ := d
  have day_le_31 := day_le.trans (daysInMonth_le year month)
  by_cases february : month = 2
  · subst february
    simp only [daysInMonth] at day_le
    simp only [marchDay, marchYear]
    split_ifs at day_le with leap
    · simp [leap]
      omega
    · left
      simp
      omega
  · left
    simp only [marchDay]
    split_ifs <;> omega

end Date

end Zodia.Lib
