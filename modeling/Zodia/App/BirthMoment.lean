import Zodia.Core.Calendar

/-!
# The moment of birth

The setup page asks for a local date and time and a place. The handler converts the time to
UTC with the time zone of the place and leaves the date as it is, so it names another day when
the date in UTC is not the local one.

## Main definitions

* `LocalResult` — what a zone makes of a local time.
* `localToUtcHour`, `confirmBirth` — the handler's conversion.

## Main results

* `confirmBirth_exact_iff` — the Julian day is that of the moment exactly if the dates agree.
* `evening_in_new_york` — an evening that is a morning in UTC.
-/

namespace Zodia.App

open Lib Zodia.Core

/-! ## Local times -/

/-- A date and a second of the day, without a zone. -/
structure NaiveDateTime where
  date : Date
  seconds : ℕ
  seconds_lt : seconds < 86400

/-- The seconds since the epoch, were the time one in UTC. -/
def NaiveDateTime.timestamp (t : NaiveDateTime) : ℤ := t.date.dayNumber * 86400 + t.seconds

/-- What a zone makes of a local time, as the offsets from UTC that may be in force, in
seconds. -/
inductive LocalResult where
  | none
  | single (offset : ℤ)
  | ambiguous (earliest latest : ℤ)

/-- The moment that the handler takes a local time for, in seconds since the epoch. -/
def LocalResult.instant (t : NaiveDateTime) : LocalResult → Option ℤ
  | .none => Option.none
  | .single offset => some (t.timestamp - offset)
  | .ambiguous earliest _ => some (t.timestamp - earliest)

/-- The date, if it is one of the calendar and `years` admits its year. -/
def fromYmdOpt (years : ℤ → Bool) (year : ℤ) (month day : ℕ) : Option Date :=
  if h : years year = true ∧ (1 ≤ month ∧ month ≤ 12) ∧ 1 ≤ day ∧ day ≤ daysInMonth year month then
    some ⟨year, month, day, h.2.1.1, h.2.1.2, h.2.2.1, h.2.2.2⟩
  else none

/-- The second of the day. -/
def fromHmsOpt (hour minute second : ℕ) : Option (Fin 86400) :=
  if h : hour < 24 ∧ minute < 60 ∧ second < 60 then
    some ⟨hour * 3600 + minute * 60 + second, by omega⟩
  else none

/-! ## The handler -/

/-- Half away from zero, as the code rounds. -/
def roundHalfAway (x : ℚ) : ℤ := if 0 ≤ x then ⌊x + 1 / 2⌋ else ⌈x - 1 / 2⌉

/-- The remainder from dividing by 24. -/
def remEuclid24 (x : ℚ) : ℚ := x - 24 * ⌊x / 24⌋

/-- The hour of a moment in UTC. -/
def utcHour (instant : ℤ) : ℚ :=
  let s := instant % 86400
  (s / 3600 : ℤ) + (s / 60 % 60 : ℤ) / 60 + (s % 60 : ℤ) / 3600

section Handler

variable (years : ℤ → Bool) (zoneAt : ℚ → ℚ → Option (NaiveDateTime → LocalResult))

/-- The date and time that the handler asks the zone about. -/
def naiveOf (year : ℤ) (month day hour minute : ℕ) : NaiveDateTime :=
  let time := (fromHmsOpt hour minute 0).getD 0
  ⟨(fromYmdOpt years year month day).getD Date.epoch, time, time.isLt⟩

/-- The hour in UTC of a local time at a place. Without a zone or a moment it is estimated from
the longitude. -/
def localToUtcHour (year : ℤ) (month day hour minute : ℕ) (lat lon : ℚ) : ℚ :=
  let naive := naiveOf years year month day hour minute
  match (zoneAt lon lat).bind fun zone => (zone naive).instant naive with
  | some instant => utcHour instant
  | none =>
    let offset : ℚ := max (-12) (min 14 (roundHalfAway (lon / 15)))
    remEuclid24 (hour + minute / 60 - offset)

/-- The Julian day that is saved for a birth. -/
def confirmBirth (year : ℤ) (month day hour minute : ℕ) (lat lon : ℚ) : Except String ℚ :=
  if lat < -90 ∨ 90 < lat ∨ lon < -180 ∨ 180 < lon then
    .error "Latitude must be −90…90, longitude −180…180"
  else
    .ok (gregorianToJdn year month day
      (localToUtcHour years zoneAt year month day hour minute lat lon))

end Handler

/-! ## The date in UTC -/

theorem utcHour_eq (instant : ℤ) : utcHour instant = ((instant % 86400 : ℤ) : ℚ) / 3600 := by
  unfold utcHour
  generalize instant % 86400 = s
  have parts : s = s / 3600 * 3600 + s / 60 % 60 * 60 + s % 60 := by omega
  have parts' : (s : ℚ) = (s / 3600 : ℤ) * 3600 + (s / 60 % 60 : ℤ) * 60 + (s % 60 : ℤ) := by
    exact_mod_cast parts
  rw [parts']
  push_cast
  ring

/-- A Julian day of a date and an hour is that of a moment with this hour exactly if the moment
is on this date. -/
theorem gregorianToJdn_utcHour_iff (d : Date) (instant : ℤ) :
    gregorianToJdn d.year d.month d.day (utcHour instant) = currentJdn instant ↔
      instant / 86400 = d.dayNumber := by
  have split : instant = instant / 86400 * 86400 + instant % 86400 := by omega
  have split' : (instant : ℚ) = (instant / 86400 : ℤ) * 86400 + (instant % 86400 : ℤ) := by
    exact_mod_cast split
  rw [gregorianToJdn_eq, utcHour_eq, currentJdn, split']
  constructor
  · intro same
    have days : (d.dayNumber : ℚ) = (instant / 86400 : ℤ) := by linarith
    exact (Int.cast_injective days).symm
  · intro same
    rw [same]
    ring

/-- The Julian day that is saved for a local time with a moment in UTC is that of the moment
exactly if the moment is on the local date in UTC as well. -/
theorem confirmBirth_exact_iff (years : ℤ → Bool)
    (zoneAt : ℚ → ℚ → Option (NaiveDateTime → LocalResult)) (year : ℤ)
    (month day hour minute : ℕ) (lat lon jdn : ℚ) (date : Date)
    (zone : NaiveDateTime → LocalResult) (instant : ℤ)
    (valid : fromYmdOpt years year month day = some date)
    (place : zoneAt lon lat = some zone)
    (denotes : (zone (naiveOf years year month day hour minute)).instant
      (naiveOf years year month day hour minute) = some instant)
    (saved : confirmBirth years zoneAt year month day hour minute lat lon = .ok jdn) :
    jdn = currentJdn instant ↔ instant / 86400 = date.dayNumber := by
  have hour : localToUtcHour years zoneAt year month day hour minute lat lon = utcHour instant := by
    simp [localToUtcHour, place, denotes]
  unfold confirmBirth at saved
  split_ifs at saved
  obtain rfl := Except.ok.inj saved
  rw [hour, ← gregorianToJdn_utcHour_iff]
  unfold fromYmdOpt at valid
  split_ifs at valid
  obtain rfl := Option.some.inj valid
  rfl

/-! ## An evening in New York -/

/-- A zone that is five hours behind UTC. -/
def eastern : NaiveDateTime → LocalResult := fun _ => .single (-18000)

/-- Nine in the evening of the last day of 1990. -/
def newYearsEve : NaiveDateTime := naiveOf (fun _ => true) 1990 12 31 21 0

theorem instant_newYearsEve : (eastern newYearsEve).instant newYearsEve = some 662695200 := by
  decide

theorem confirmBirth_newYearsEve :
    confirmBirth (fun _ => true) (fun _ _ => some eastern) 1990 12 31 21 0 40 (-74) =
      .ok (gregorianToJdn 1990 12 31 (utcHour 662695200)) := by
  have hour : localToUtcHour (fun _ => true) (fun _ _ => some eastern) 1990 12 31 21 0 40 (-74) =
      utcHour 662695200 := rfl
  rw [confirmBirth, hour, if_neg (by norm_num)]

theorem confirmBirth_exact_iff_newYearsEve :
    gregorianToJdn 1990 12 31 (utcHour 662695200) = currentJdn 662695200 ↔
      (662695200 : ℤ) / 86400 = newYearsEve.date.dayNumber :=
  confirmBirth_exact_iff (fun _ => true) (fun _ _ => some eastern) 1990 12 31 21 0 40 (-74) _
    newYearsEve.date eastern 662695200 rfl rfl instant_newYearsEve confirmBirth_newYearsEve

/-- The birth is saved a day early. -/
theorem evening_in_new_york :
    (eastern newYearsEve).instant newYearsEve = some 662695200 ∧
      confirmBirth (fun _ => true) (fun _ _ => some eastern) 1990 12 31 21 0 40 (-74) =
        .ok (currentJdn 662695200 - 1) := by
  have days : newYearsEve.date.dayNumber = 7669 := by decide
  have counted : gregorianToJdn 1990 12 31 (utcHour 662695200) =
      newYearsEve.date.dayNumber + 2440587.5 + utcHour 662695200 / 24 :=
    gregorianToJdn_eq newYearsEve.date (utcHour 662695200)
  refine ⟨instant_newYearsEve, confirmBirth_newYearsEve.trans (congrArg Except.ok ?_)⟩
  rw [counted, days, utcHour_eq]
  norm_num [currentJdn]

end Zodia.App
