import Mathlib.Data.Fin.Tuple.Basic
import Mathlib.Data.Fin.VecNotation
import Zodia.Core.Aspects
import Zodia.Lib.Circle

/-!
# Houses

The house system of `core/src/houses.rs`: twelve cusps around the circle, and the house that a
longitude lies in.

## Main definitions

* `HouseSystem`, `HouseSystem.houseOf`.
* `InHouse` — the longitude is met on the way from the cusp to the next one.
* `ZeroWidth` — the cusp is also the next one.

## Main results

* `houseOf_is_house_iff` — among cusps that go around once every longitude has one house, and
  `houseOf` finds it just where no house before it has zero width.
-/

namespace Zodia.Core

open Zodia.Circle

/-! ## Longitudes on the circle -/

theorem remEuclid_of_mem {x : ℚ} (nonneg : 0 ≤ x) (lt : x < 360) : remEuclid x 360 = x := by
  have turn : ⌊x / 360⌋ = 0 := by
    rw [Int.floor_eq_zero_iff]
    exact ⟨by linarith, by linarith⟩
  rw [remEuclid, turn, Int.cast_zero, mul_zero, sub_zero]

theorem remEuclid_mem (x : ℚ) : 0 ≤ remEuclid x 360 ∧ remEuclid x 360 < 360 := by
  have low := Int.floor_le (x / 360)
  have high := Int.lt_floor_add_one (x / 360)
  unfold remEuclid
  constructor <;> linarith

theorem remEuclid_add_turn (x : ℚ) : remEuclid (x + 360) 360 = remEuclid x 360 := by
  have turn : (x + 360) / 360 = x / 360 + 1 := by ring
  rw [remEuclid, turn, Int.floor_add_one, remEuclid]
  push_cast
  ring

theorem remEuclid_sub_turns (x : ℚ) (k : ℤ) : remEuclid (x - 360 * k) 360 = remEuclid x 360 := by
  have turn : (x - 360 * k) / 360 = x / 360 - k := by ring
  rw [remEuclid, turn, Int.floor_sub_intCast, remEuclid]
  push_cast
  ring

/-- Only the place on the circle counts. -/
theorem remEuclid_sub_left (x a : ℚ) :
    remEuclid (x - a) 360 = remEuclid (remEuclid x 360 - a) 360 := by
  have same : remEuclid x 360 - a = x - a - 360 * (⌊x / 360⌋ : ℤ) := by
    rw [remEuclid]
    ring
  rw [same, remEuclid_sub_turns]

/-- How far on `x` is from `a`, both within the circle. -/
theorem remEuclid_sub {x a : ℚ} (hx : 0 ≤ x ∧ x < 360) (ha : 0 ≤ a ∧ a < 360) :
    remEuclid (x - a) 360 = if a ≤ x then x - a else x - a + 360 := by
  split_ifs with le
  · exact remEuclid_of_mem (by linarith) (by linarith)
  · rw [← remEuclid_add_turn, remEuclid_of_mem (by linarith) (by linarith)]

/-! ## The house system -/

inductive HouseKind where
  | placidus
  | wholeSign
  | koch
  | equal
  deriving DecidableEq

structure HouseSystem where
  kind : HouseKind
  /-- Cusp longitudes, index 0 for the first house. -/
  cusps : Fin 12 → ℚ
  ascendant : ℚ
  midheaven : ℚ

namespace HouseSystem

/-- All-zero placeholder for when geographic data is unavailable. -/
def stub : HouseSystem where
  kind := .wholeSign
  cusps := fun _ => 0
  ascendant := 0
  midheaven := 0

/-- The test that `house_of` makes of one house. -/
def contains (h : HouseSystem) (lon : ℚ) (i : Fin 12) : Bool :=
  let start := h.cusps i
  let stop := h.cusps (i + 1)
  if start < stop then start ≤ lon && lon < stop
  else
    -- cusp range wraps through 0°
    start ≤ lon || lon < stop

/-- The loop of `house_of`. -/
def firstContaining (h : HouseSystem) (lon : ℚ) : Option (Fin 12) := Fin.find? (h.contains lon)

/-- Which house a given ecliptic longitude occupies. -/
def houseOf (h : HouseSystem) (longitude : ℚ) : ℕ :=
  match h.firstContaining (remEuclid longitude 360) with
  | some i => i + 1
  | none => 1

/-! ## The house of a longitude -/

/-- Going on from the cusp, the longitude is met before the next cusp. -/
def InHouse (h : HouseSystem) (i : Fin 12) (longitude : ℚ) : Prop :=
  remEuclid (longitude - h.cusps i) 360 < remEuclid (h.cusps (i + 1) - h.cusps i) 360

def ZeroWidth (h : HouseSystem) (i : Fin 12) : Prop := h.cusps i = h.cusps (i + 1)

/-- Cusps within the circle. -/
def InRange (h : HouseSystem) : Prop := ∀ i, 0 ≤ h.cusps i ∧ h.cusps i < 360

/-- Cusps within the circle, in the order of the houses. -/
structure Around (h : HouseSystem) : Prop where
  range : ∀ i, 0 ≤ h.cusps i ∧ h.cusps i < 360
  once : OnceAround h.cusps

variable {h : HouseSystem}

/-- `house_of` finds a house that contains the longitude and has some width. -/
def FindsHouse (h : HouseSystem) (longitude : ℚ) : Prop :=
  ∃ i : Fin 12, h.houseOf longitude = i + 1 ∧ h.InHouse i longitude ∧ ¬ h.ZeroWidth i

theorem InHouse.not_zeroWidth {i : Fin 12} {longitude : ℚ} (mem : h.InHouse i longitude) :
    ¬ h.ZeroWidth i := by
  intro zero
  have nonneg := (remEuclid_mem (longitude - h.cusps i)).1
  rw [InHouse, ← zero, sub_self, remEuclid_of_mem le_rfl (by norm_num)] at mem
  exact absurd mem (not_lt.2 nonneg)

theorem inHouse_iff_mem_arc (range : h.InRange) (i : Fin 12) (longitude : ℚ) :
    h.InHouse i longitude ↔ remEuclid longitude 360 ∈ arc (h.cusps i) (h.cusps (i + 1)) := by
  have place := remEuclid_mem longitude
  have start := range i
  have stop := range (i + 1)
  rw [InHouse, remEuclid_sub_left, remEuclid_sub place start, remEuclid_sub stop start]
  rcases le_or_gt (h.cusps i) (h.cusps (i + 1)) with le | lt
  · rw [mem_arc_of_le le, if_pos le]
    split_ifs with above
    · exact ⟨fun before => ⟨above, by linarith⟩, fun ⟨_, before⟩ => by linarith⟩
    · exact ⟨fun before => by linarith, fun ⟨above', _⟩ => absurd above' above⟩
  · rw [mem_arc_of_lt lt, if_neg (not_le.2 lt)]
    split_ifs with above
    · exact ⟨fun _ => .inl above, fun _ => by linarith⟩
    · refine ⟨fun before => .inr (by linarith), ?_⟩
      rintro (above' | before)
      · exact absurd above' above
      · linarith

/-- A zero-width house takes every longitude. -/
theorem contains_iff (range : h.InRange) (i : Fin 12) (longitude : ℚ) :
    h.contains (remEuclid longitude 360) i ↔ h.InHouse i longitude ∨ h.ZeroWidth i := by
  rw [inHouse_iff_mem_arc range, ZeroWidth]
  rcases lt_trichotomy (h.cusps i) (h.cusps (i + 1)) with lt | eq | lt
  · simp [contains, lt, lt.ne, mem_arc_of_le lt.le]
  · simp [contains, eq, le_or_gt]
  · simp [contains, not_lt.2 lt.le, lt.ne', mem_arc_of_lt lt]

theorem firstContaining_eq_some_iff {lon : ℚ} {i : Fin 12} :
    h.firstContaining lon = some i ↔ h.contains lon i ∧ ∀ j < i, ¬ h.contains lon j := by
  simp only [firstContaining, Fin.find?_eq_some_iff, Bool.not_eq_true]

theorem houseOf_eq {longitude : ℚ} {i : Fin 12}
    (found : h.firstContaining (remEuclid longitude 360) = some i) :
    h.houseOf longitude = i + 1 := by
  unfold houseOf
  rw [found]

theorem houseOf_ne_zero (h : HouseSystem) (longitude : ℚ) : h.houseOf longitude ≠ 0 := by
  unfold houseOf
  split <;> omega

/-- **Every longitude has one house, and `houseOf` finds it if and only if no house before it
has zero width.** -/
theorem houseOf_is_house_iff (around : h.Around) (longitude : ℚ) :
    ∃ i, (∀ j, h.InHouse j longitude ↔ j = i) ∧
      (h.FindsHouse longitude ↔ ∀ j < i, ¬ h.ZeroWidth j) := by
  obtain ⟨i, mem, unique⟩ := around.once.existsUnique_mem_arc (remEuclid longitude 360)
  have inHouse (j : Fin 12) : h.InHouse j longitude ↔ j = i := by
    rw [inHouse_iff_mem_arc around.range]
    exact ⟨unique j, fun same => same ▸ mem⟩
  refine ⟨i, inHouse, ?_⟩
  obtain ⟨k, found⟩ : ∃ k, h.firstContaining (remEuclid longitude 360) = some k := by
    rw [← Option.isSome_iff_exists, firstContaining, Fin.isSome_find?_iff]
    exact ⟨i, (contains_iff around.range i longitude).2 (.inl ((inHouse i).2 rfl))⟩
  obtain ⟨here, first⟩ := firstContaining_eq_some_iff.1 found
  rw [contains_iff around.range, inHouse] at here
  constructor
  · rintro ⟨j, answer, house, -⟩ l before zero
    rw [houseOf_eq found, Nat.add_right_cancel_iff, Fin.val_inj] at answer
    have earlier : l < k := by rwa [answer, (inHouse j).1 house]
    exact first l earlier ((contains_iff around.range l longitude).2 (.inr zero))
  · intro wide
    refine ⟨k, houseOf_eq found, ?_⟩
    have house : h.InHouse k longitude := by
      rw [inHouse]
      rcases here with same | zero
      · exact same
      · have le : k ≤ i := by
          by_contra later
          have own := (contains_iff around.range i longitude).2 (.inl ((inHouse i).2 rfl))
          exact first i (not_le.1 later) own
        rcases le.lt_or_eq with lt | same
        · exact absurd zero (wide k lt)
        · exact same
    exact ⟨house, house.not_zeroWidth⟩

/-- Houses as at a polar latitude, where the cusps 5 and 6 fall on the one of house 4, and the
cusps 11 and 12 on the one of house 10. -/
def polar : HouseSystem where
  kind := .placidus
  cusps := ![0, 30, 60, 90, 90, 90, 180, 210, 240, 270, 270, 270]
  ascendant := 0
  midheaven := 270

theorem polar_around : polar.Around := by
  refine ⟨by decide, ⟨0, ?_⟩, 0, 1, by decide⟩
  rw [Fin.monotone_iff_le_succ]
  decide

theorem houseOf_is_house_polar :
    ∃ i, (∀ j, polar.InHouse j 200 ↔ j = i) ∧
      (polar.FindsHouse 200 ↔ ∀ j < i, ¬ polar.ZeroWidth j) :=
  houseOf_is_house_iff polar_around 200

/-- House 4 has no width and takes a longitude of house 7. -/
theorem polar_misses :
    polar.Around ∧ polar.InHouse 6 200 ∧ polar.houseOf 200 = 4 ∧ ¬ polar.FindsHouse 200 := by
  have answer : polar.houseOf 200 = 4 := by decide +kernel
  refine ⟨polar_around, by unfold InHouse; decide +kernel, answer, ?_⟩
  rintro ⟨i, same, -, wide⟩
  have fourth : i = 3 := by omega
  subst fourth
  exact wide (by unfold ZeroWidth; decide)

end HouseSystem

end Zodia.Core
