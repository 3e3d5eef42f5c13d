import Mathlib.Data.Rat.Floor
import Mathlib.Tactic.NormNum
import Mathlib.Tactic.Ring
import Zodia.Lib.Civil

/-!
# Julian days

The conversions of `core/src/calendar.rs` between a date with an hour and a Julian day, over
rational numbers. The terms of the first one with a floor count the days of the years and of the
months, and the rest is the constant that the clock uses. The second one takes them off again:
first the leap days that the centuries miss, then the years, then the months.

## Main results

* `gregorianToJdn_eq` — the conversion counts the days of the calendar.
* `jdnToGregorian_gregorianToJdn` — the date of a Julian day is the one it was made from.
-/

namespace Zodia.Core

open Lib

/-- The Julian day of a date and an hour. -/
def gregorianToJdn (year : ℤ) (month day : ℕ) (hour : ℚ) : ℚ :=
  let y : ℚ := if month ≤ 2 then year - 1 else year
  let m : ℚ := if month ≤ 2 then month + 12 else month
  let a : ℚ := ⌊y / 100⌋
  let b : ℚ := 2 - a + ⌊a / 4⌋
  ⌊365.25 * (y + 4716)⌋ + ⌊30.6001 * (m + 1)⌋ + day + b - 1524.5 + hour / 24

/-- The cast of a whole number to 32 bits. -/
def asU32 (n : ℤ) : ℕ := (n % 2 ^ 32).toNat

/-- The date of a Julian day. -/
def jdnToGregorian (jdn : ℚ) : ℤ × ℕ × ℕ :=
  let z : ℤ := ⌊jdn + 0.5⌋
  let a : ℤ :=
    if z < 2299161 then z
    else
      let alpha : ℤ := ⌊((z : ℚ) - 1867216.25) / 36524.25⌋
      z + 1 + alpha - alpha.tdiv 4
  let b : ℤ := a + 1524
  let c : ℤ := ⌊((b : ℚ) - 122.1) / 365.25⌋
  let d : ℤ := ⌊(365.25 : ℚ) * c⌋
  let e : ℤ := ⌊((b - d : ℤ) : ℚ) / 30.6001⌋
  let day : ℕ := asU32 (b - d - ⌊(30.6001 : ℚ) * e⌋)
  let month : ℕ := if e < 14 then asU32 (e - 1) else asU32 (e - 13)
  let year : ℤ := if month > 2 then c - 4716 else c - 4715
  (year, month, day)

/-- The Julian day of a moment, in seconds since the epoch. -/
def currentJdn (seconds : ℤ) : ℚ := seconds / 86400 + 2440587.5

/-! ## The terms of the conversion -/

theorem floor_centuries (y : ℤ) : ⌊(y : ℚ) / 100⌋ = y / 100 :=
  Rat.floor_intCast_div_natCast y 100

theorem floor_years (c : ℤ) : ⌊(365.25 : ℚ) * c⌋ = 365 * c + c / 4 := by
  have quarter : (365.25 : ℚ) * c = ((1461 * c : ℤ) : ℚ) / (4 : ℕ) := by
    push_cast
    ring
  rw [quarter, Rat.floor_intCast_div_natCast]
  omega

theorem floor_months (e : ℤ) : ⌊(30.6001 : ℚ) * e⌋ = 306001 * e / 10000 := by
  have scaled : (30.6001 : ℚ) * e = ((306001 * e : ℤ) : ℚ) / (10000 : ℕ) := by
    push_cast
    ring
  rw [scaled, Rat.floor_intCast_div_natCast]
  rfl

/-- The conversion in terms of whole numbers. -/
theorem gregorianToJdn_int (year : ℤ) (month day : ℕ) (hour : ℚ) :
    gregorianToJdn year month day hour =
      let y : ℤ := if month ≤ 2 then year - 1 else year
      let m : ℤ := if month ≤ 2 then month + 12 else month
      ((365 * (y + 4716) + (y + 4716) / 4 + 306001 * (m + 1) / 10000 + day +
        (2 - y / 100 + y / 100 / 4) : ℤ) : ℚ) - 1524.5 + hour / 24 := by
  have cases (y m : ℤ) : (⌊(365.25 : ℚ) * (y + 4716)⌋ + ⌊(30.6001 : ℚ) * (m + 1)⌋ + day +
      (2 - (⌊(y : ℚ) / 100⌋ : ℚ) + ⌊(⌊(y : ℚ) / 100⌋ : ℚ) / 4⌋) - 1524.5 + hour / 24 : ℚ) =
      ((365 * (y + 4716) + (y + 4716) / 4 + 306001 * (m + 1) / 10000 + day +
        (2 - y / 100 + y / 100 / 4) : ℤ) : ℚ) - 1524.5 + hour / 24 := by
    have fourth : ⌊((y / 100 : ℤ) : ℚ) / 4⌋ = y / 100 / 4 :=
      Rat.floor_intCast_div_natCast (y / 100) 4
    have years := floor_years (y + 4716)
    have months := floor_months (m + 1)
    push_cast at years months
    rw [floor_centuries, years, months, fourth]
    push_cast
    ring
  unfold gregorianToJdn
  split_ifs
  · simpa using cases (year - 1) (month + 12)
  · simpa using cases year month

/-- The conversion counts the days of the calendar. -/
theorem gregorianToJdn_eq (d : Date) (hour : ℚ) :
    gregorianToJdn d.year d.month d.day hour = d.dayNumber + 2440587.5 + hour / 24 := by
  obtain ⟨year, month, day, month_pos, month_le, -, -⟩ := d
  have days : (365 * ((if month ≤ 2 then year - 1 else year) + 4716) +
      ((if month ≤ 2 then year - 1 else year) + 4716) / 4 +
      306001 * ((if month ≤ 2 then (month : ℤ) + 12 else month) + 1) / 10000 + day +
      (2 - (if month ≤ 2 then year - 1 else year) / 100 +
        (if month ≤ 2 then year - 1 else year) / 100 / 4) : ℤ) =
      Date.dayNumber ⟨year, month, day, month_pos, month_le, ‹_›, ‹_›⟩ + 2442112 := by
    simp only [Date.dayNumber]
    interval_cases month <;> simp <;> omega
  rw [gregorianToJdn_int]
  simp only [days]
  push_cast
  ring

/-! ## The terms of the inverse -/

theorem floor_alpha (z : ℤ) :
    ⌊((z : ℚ) - 1867216.25) / 36524.25⌋ = (4 * z - 7468865) / 146097 := by
  have scaled : ((z : ℚ) - 1867216.25) / 36524.25 =
      ((4 * z - 7468865 : ℤ) : ℚ) / (146097 : ℕ) := by
    push_cast
    ring
  rw [scaled, Rat.floor_intCast_div_natCast]
  rfl

theorem floor_c (b : ℤ) : ⌊((b : ℚ) - 122.1) / 365.25⌋ = (20 * b - 2442) / 7305 := by
  have scaled : ((b : ℚ) - 122.1) / 365.25 = ((20 * b - 2442 : ℤ) : ℚ) / (7305 : ℕ) := by
    push_cast
    ring
  rw [scaled, Rat.floor_intCast_div_natCast]
  rfl

theorem floor_e (n : ℤ) : ⌊(n : ℚ) / 30.6001⌋ = 10000 * n / 306001 := by
  have scaled : (n : ℚ) / 30.6001 = ((10000 * n : ℤ) : ℚ) / (306001 : ℕ) := by
    push_cast
    ring
  rw [scaled, Rat.floor_intCast_div_natCast]
  rfl

/-! ## The round trip -/

/-- The calendar is in use: the date is 15 October 1582 or a later one. -/
def InUse (d : Date) : Prop :=
  1582 < d.year ∨ d.year = 1582 ∧ (10 < d.month ∨ d.month = 10 ∧ 15 ≤ d.day)

instance (d : Date) : Decidable (InUse d) :=
  inferInstanceAs (Decidable (_ ∨ _ ∧ (_ ∨ _ ∧ _)))

/-- The Julian day number of a date. -/
def julianDay (d : Date) : ℤ := d.dayNumber + 2440588

theorem floor_gregorianToJdn (d : Date) {hour : ℚ} (hour_nonneg : 0 ≤ hour) (hour_lt : hour < 24) :
    ⌊gregorianToJdn d.year d.month d.day hour + 0.5⌋ = julianDay d := by
  rw [gregorianToJdn_eq, Int.floor_eq_iff, julianDay]
  push_cast
  constructor <;> linarith

theorem InUse.le_julianDay {d : Date} (used : InUse d) : 2299161 ≤ julianDay d := by
  have month_le := d.month_le
  have day_pos := d.day_pos
  simp only [julianDay, Date.dayNumber]
  rcases used with later | ⟨same, later | ⟨october, day_le⟩⟩ <;> split_ifs <;> omega

theorem InUse.le_marchYear {d : Date} (used : InUse d) : 1582 ≤ d.marchYear := by
  simp only [Date.marchYear]
  rcases used with later | ⟨same, later | ⟨october, day_le⟩⟩ <;> split_ifs <;> omega

/-- A year is a year of a leap cycle of a century of a span of four centuries. -/
theorem year_decompose (y : ℤ) : ∃ span century cycle rest : ℤ,
    y = 400 * span + 100 * century + 4 * cycle + rest ∧
      (0 ≤ century ∧ century ≤ 3) ∧ (0 ≤ cycle ∧ cycle ≤ 24) ∧ 0 ≤ rest ∧ rest ≤ 3 :=
  ⟨y / 400, y % 400 / 100, y % 100 / 4, y % 4, by omega, by omega, by omega, by omega⟩

/-- The centuries of a day, counted from its Julian day number. -/
theorem alpha_eq (d : Date) : (4 * julianDay d - 7468865) / 146097 = d.marchYear / 100 - 4 := by
  have nonneg := d.marchDay_nonneg
  have leap := d.leap_of_marchDay
  rw [julianDay, Date.dayNumber_eq]
  obtain ⟨span, century, cycle, rest, decomposed, inSpan, inCentury, inCycle⟩ :=
    year_decompose d.marchYear
  have spans : d.marchYear / 400 = span := by omega
  have centuries : d.marchYear / 100 = 4 * span + century := by omega
  have cycles : d.marchYear / 4 = 100 * span + 25 * century + cycle := by omega
  rw [spans, centuries, cycles]
  rcases leap with le | ⟨last, four, short | long⟩
  · omega
  · -- a century without a leap year lacks the leap day of its last cycle
    have cycle_le : cycle ≤ 23 := by
      by_contra last_cycle
      exact short (by omega)
    omega
  · have century_eq : century = 3 := by omega
    omega

/-- The day number without the leap days that the centuries miss. -/
theorem a_eq {d : Date} (used : InUse d) :
    julianDay d + 1 + (d.marchYear / 100 - 4) - (d.marchYear / 100 - 4).tdiv 4 =
      365 * d.marchYear + d.marchYear / 4 + d.marchDay + 1721118 := by
  have year_le := used.le_marchYear
  rw [Int.tdiv_eq_ediv_of_nonneg (by omega), julianDay, Date.dayNumber_eq]
  omega

/-- The years of a day, counted from that number. -/
theorem c_eq (d : Date) :
    (20 * (365 * d.marchYear + d.marchYear / 4 + d.marchDay + 1722642) - 2442) / 7305 =
      d.marchYear + 4716 := by
  have nonneg := d.marchDay_nonneg
  rcases d.leap_of_marchDay with le | ⟨last, four, century⟩ <;> omega

/-- The month of a date, when January and February are the 13th and the 14th one of the year
before. -/
def lateMonth (d : Date) : ℤ := if d.month ≤ 2 then d.month + 12 else d.month

/-- The months of a day, counted from the days of its year. -/
theorem e_eq (d : Date) : 10000 * (d.marchDay + 123) / 306001 = lateMonth d + 1 := by
  obtain ⟨year, month, day, month_pos, month_le, day_pos, day_le⟩ := d
  simp only [Date.marchDay, lateMonth]
  interval_cases month
  case «2» =>
    have day_le_29 : day ≤ 29 := by
      simp only [daysInMonth] at day_le
      split_ifs at day_le <;> omega
    simp
    omega
  all_goals
    simp only [daysInMonth] at day_le
    simp
    omega

theorem day_eq (d : Date) :
    d.marchDay + 123 - 306001 * (lateMonth d + 1) / 10000 = d.day := by
  obtain ⟨year, month, day, month_pos, month_le, day_pos, day_le⟩ := d
  simp only [Date.marchDay, lateMonth]
  interval_cases month <;> simp <;> omega

theorem asU32_natCast {n : ℕ} (small : n < 2 ^ 32) : asU32 n = n := by
  simp only [asU32]
  omega

theorem month_eq (d : Date) :
    (if lateMonth d + 1 < 14 then asU32 (lateMonth d + 1 - 1)
      else asU32 (lateMonth d + 1 - 13)) = d.month := by
  have month_pos := d.month_pos
  have month_le := d.month_le
  have month_cast : asU32 d.month = d.month := asU32_natCast (by omega)
  have late_eq : lateMonth d = if d.month ≤ 2 then (d.month : ℤ) + 12 else d.month := rfl
  split_ifs at late_eq ⊢ with before early early
  · omega
  · rw [show lateMonth d + 1 - 1 = d.month by omega, month_cast]
  · rw [show lateMonth d + 1 - 13 = d.month by omega, month_cast]
  · omega

theorem year_eq (d : Date) :
    (if d.month > 2 then d.marchYear + 4716 - 4716 else d.marchYear + 4716 - 4715) = d.year := by
  simp only [Date.marchYear]
  split_ifs <;> omega

/-- The date of a Julian day is the one it was made from. -/
theorem jdnToGregorian_gregorianToJdn (d : Date) (hour : ℚ) (used : InUse d)
    (hour_nonneg : 0 ≤ hour) (hour_lt : hour < 24) :
    jdnToGregorian (gregorianToJdn d.year d.month d.day hour) = (d.year, d.month, d.day) := by
  have b_eq : 365 * d.marchYear + d.marchYear / 4 + d.marchDay + 1721118 + 1524 =
      365 * d.marchYear + d.marchYear / 4 + d.marchDay + 1722642 := by ring
  have rest_eq : 365 * d.marchYear + d.marchYear / 4 + d.marchDay + 1722642 -
      (365 * (d.marchYear + 4716) + (d.marchYear + 4716) / 4) = d.marchDay + 123 := by omega
  have day_le := d.day_le.trans (daysInMonth_le d.year d.month)
  have day_cast : asU32 d.day = d.day := asU32_natCast (by omega)
  unfold jdnToGregorian
  simp only [floor_gregorianToJdn d hour_nonneg hour_lt, if_neg (not_lt.2 used.le_julianDay),
    floor_alpha, alpha_eq, a_eq used, b_eq, floor_c, c_eq, floor_years, rest_eq, floor_e, e_eq,
    floor_months, day_eq, day_cast, month_eq, year_eq]

theorem jdnToGregorian_gregorianToJdn_reform :
    jdnToGregorian (gregorianToJdn 1582 10 15 0) = (1582, 10, 15) :=
  jdnToGregorian_gregorianToJdn ⟨1582, 10, 15, by decide, by decide, by decide, by decide⟩ 0
    (by decide) (by norm_num) (by norm_num)

end Zodia.Core
