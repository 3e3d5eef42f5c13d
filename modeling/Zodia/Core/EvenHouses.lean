import Zodia.Core.Houses

/-!
# Houses of equal width

The two house systems of `core/src/houses.rs` that need no place on earth: whole signs, and
houses of 30° from the ascendant. Both put a cusp at every 30° from some start, so the house of
a longitude is read off its way from there.

## Main definitions

* `wholeSignCusps`, `equalHouseCusps`.
* `EvenFrom` — a cusp at every 30° from a start.
* `CountsFrom` — the houses are the twelfths of the circle, counted from a start.

## Main results

* `countsFrom_of_equal_or_wholeSign` — the house in both systems, and that there is just one.
-/

namespace Zodia.Core

/-- The cast of a number that is whole to 32 bits, which stops at both ends. -/
def saturateU32 (n : ℤ) : ℕ := min n.toNat (2 ^ 32 - 1)

/-- Whole signs: the sign that contains the ascendant is the first house. -/
def wholeSignCusps (asc : ℚ) : Fin 12 → ℚ :=
  let ascSign : ℕ := saturateU32 ⌊asc / 30⌋
  fun i => ((ascSign + i) % 12 * 30 : ℕ)

/-- Equal houses: the first cusp is the ascendant, and each one after it is 30° on. -/
def equalHouseCusps (asc : ℚ) : Fin 12 → ℚ := fun i => remEuclid (asc + (i : ℕ) * 30) 360

theorem remEuclid_add_turns (x : ℚ) (k : ℤ) : remEuclid (x + 360 * k) 360 = remEuclid x 360 := by
  have turned := remEuclid_sub_turns x (-k)
  push_cast at turned
  rwa [mul_neg, sub_neg_eq_add] at turned

/-- On the way to `x`, the twelfth of the circle that starts at `30 * i` is met. -/
theorem remEuclid_sub_lt_iff {x : ℚ} (mem : 0 ≤ x ∧ x < 360) (i : Fin 12) :
    remEuclid (x - (i : ℕ) * 30) 360 < 30 ↔ ⌊x / 30⌋ = (i : ℕ) := by
  have le : ((i : ℕ) : ℚ) ≤ 11 := by exact_mod_cast Nat.le_of_lt_succ i.isLt
  rw [remEuclid_sub mem ⟨by positivity, by linarith⟩, Int.floor_eq_iff, le_div_iff₀ (by norm_num),
    div_lt_iff₀ (by norm_num)]
  push_cast
  split_ifs with above
  · exact ⟨fun before => ⟨above, by linarith⟩, fun ⟨_, before⟩ => by linarith⟩
  · exact ⟨fun before => by linarith, fun ⟨above', _⟩ => absurd above' above⟩

theorem exists_floor_eq (x : ℚ) : ∃ i : Fin 12, ⌊remEuclid x 360 / 30⌋ = (i : ℕ) := by
  obtain ⟨nonneg, lt⟩ := remEuclid_mem x
  have low : 0 ≤ ⌊remEuclid x 360 / 30⌋ := Int.floor_nonneg.2 (by positivity)
  have high : ⌊remEuclid x 360 / 30⌋ < 12 := by
    rw [Int.floor_lt, div_lt_iff₀ (by norm_num)]
    norm_num
    exact lt
  exact ⟨⟨⌊remEuclid x 360 / 30⌋.toNat, by omega⟩, by simp [low]⟩

namespace HouseSystem

/-- A cusp at every 30° from the start. -/
def EvenFrom (start : ℚ) (cusps : Fin 12 → ℚ) : Prop :=
  ∀ i : Fin 12, cusps i = remEuclid (start + (i : ℕ) * 30) 360

theorem equalHouseCusps_even (asc : ℚ) : EvenFrom asc (equalHouseCusps asc) := fun _ => rfl

theorem wholeSignCusps_even {asc : ℚ} (nonneg : 0 ≤ asc) (lt : asc < 360) :
    EvenFrom (30 * ⌊asc / 30⌋) (wholeSignCusps asc) := by
  intro i
  obtain ⟨sign, floor_eq⟩ := exists_floor_eq asc
  rw [remEuclid_of_mem nonneg lt] at floor_eq
  have cast_eq : saturateU32 (sign : ℕ) = sign := by
    have sign_lt := sign.isLt
    rw [saturateU32, Int.toNat_natCast]
    omega
  obtain ⟨turns, place, whole, place_lt, place_eq⟩ : ∃ turns place : ℕ,
      (sign : ℕ) + i = 12 * turns + place ∧ place < 12 ∧ ((sign : ℕ) + i) % 12 = place :=
    ⟨(sign + i) / 12, (sign + i) % 12, by omega, by omega, rfl⟩
  have split : 30 * ((sign : ℕ) : ℚ) + (i : ℕ) * 30 =
      (place * 30 : ℕ) + 360 * ((turns : ℤ) : ℚ) := by
    have cast : ((sign : ℕ) : ℚ) + (i : ℕ) = 12 * turns + place := by exact_mod_cast whole
    push_cast
    linarith
  have place_mem : ((place * 30 : ℕ) : ℚ) < 360 := by exact_mod_cast (by omega : place * 30 < 360)
  simp only [wholeSignCusps, floor_eq, cast_eq, Int.cast_natCast, place_eq]
  rw [split, remEuclid_add_turns, remEuclid_of_mem (by positivity) place_mem]

/-- A longitude lies in one house, the twelfth of the circle that it is in, counted from the
start. -/
structure CountsFrom (h : HouseSystem) (start longitude : ℚ) : Prop where
  houseOf_eq : h.houseOf longitude = ⌊remEuclid (longitude - start) 360 / 30⌋ + 1
  inHouse_iff : ∀ i : Fin 12, h.InHouse i longitude ↔ h.houseOf longitude = i + 1
  unique : ∃! i, h.InHouse i longitude

variable {h : HouseSystem} {start : ℚ}

theorem EvenFrom.inRange (even : EvenFrom start h.cusps) : h.InRange := fun i => by
  rw [even i]
  exact remEuclid_mem _

/-- The last house reaches up to the first cusp. -/
theorem EvenFrom.next (even : EvenFrom start h.cusps) (i : Fin 12) :
    h.cusps (i + 1) = remEuclid (start + (i : ℕ) * 30 + 30) 360 := by
  rw [even (i + 1)]
  by_cases last : i = Fin.last 11
  · subst last
    have turn := remEuclid_add_turn start
    simp
    rw [← turn]
    congr 1
    norm_num [add_assoc]
  · rw [Fin.val_add_one_of_lt (Fin.lt_last_iff_ne_last.2 last)]
    congr 1
    push_cast
    ring

/-- Only the places of two longitudes on the circle count for the way between them. -/
theorem remEuclid_sub_right (x a : ℚ) :
    remEuclid (x - remEuclid a 360) 360 = remEuclid (x - a) 360 := by
  have same : x - remEuclid a 360 = x - a + 360 * (⌊a / 360⌋ : ℤ) := by
    rw [remEuclid]
    ring
  rw [same, remEuclid_add_turns]

theorem EvenFrom.width (even : EvenFrom start h.cusps) (i : Fin 12) :
    remEuclid (h.cusps (i + 1) - h.cusps i) 360 = 30 := by
  have between : start + (i : ℕ) * 30 + 30 - (start + (i : ℕ) * 30) = (30 : ℚ) := by ring
  rw [even.next, even i, remEuclid_sub_right, ← remEuclid_sub_left, between]
  exact remEuclid_of_mem (by norm_num) (by norm_num)

theorem EvenFrom.not_zeroWidth (even : EvenFrom start h.cusps) (i : Fin 12) :
    ¬ h.ZeroWidth i := by
  intro zero
  have width := even.width i
  rw [← zero, sub_self, remEuclid_of_mem le_rfl (by norm_num)] at width
  norm_num at width

theorem EvenFrom.inHouse_iff (even : EvenFrom start h.cusps) (i : Fin 12) (longitude : ℚ) :
    h.InHouse i longitude ↔ ⌊remEuclid (longitude - start) 360 / 30⌋ = (i : ℕ) := by
  have way : remEuclid (longitude - h.cusps i) 360 =
      remEuclid (remEuclid (longitude - start) 360 - (i : ℕ) * 30) 360 := by
    rw [even i, remEuclid_sub_right, ← remEuclid_sub_left, sub_sub]
  rw [InHouse, even.width, way, remEuclid_sub_lt_iff (remEuclid_mem _)]

/-- `house_of` counts the whole houses on the way from the start. -/
theorem EvenFrom.countsFrom (even : EvenFrom start h.cusps) (longitude : ℚ) :
    h.CountsFrom start longitude := by
  obtain ⟨k, floor_eq⟩ := exists_floor_eq (longitude - start)
  have inHouse (i : Fin 12) : h.InHouse i longitude ↔ i = k := by
    rw [even.inHouse_iff, floor_eq, Nat.cast_inj, Fin.val_inj, eq_comm]
  have contains (i : Fin 12) : h.contains (remEuclid longitude 360) i ↔ i = k := by
    rw [contains_iff even.inRange, inHouse, or_iff_left (even.not_zeroWidth i)]
  have found : h.firstContaining (remEuclid longitude 360) = some k := by
    rw [firstContaining_eq_some_iff]
    exact ⟨(contains k).2 rfl, fun j lt here => lt.ne ((contains j).1 here)⟩
  have answer : h.houseOf longitude = k + 1 := houseOf_eq found
  constructor
  · rw [answer, floor_eq]
    rfl
  · intro i
    rw [inHouse, answer, Nat.add_right_cancel_iff, Fin.val_inj, eq_comm]
  · exact ⟨k, (inHouse k).2 rfl, fun i here => (inHouse i).1 here⟩

/-- **Equal and whole-sign houses partition the circle.** -/
theorem countsFrom_of_equal_or_wholeSign (asc longitude : ℚ) (nonneg : 0 ≤ asc)
    (lt : asc < 360) :
    (∀ h : HouseSystem, h.cusps = equalHouseCusps asc → h.CountsFrom asc longitude) ∧
      ∀ h : HouseSystem, h.cusps = wholeSignCusps asc →
        h.CountsFrom (30 * ⌊asc / 30⌋) longitude := by
  constructor
  · intro h cusps_eq
    exact EvenFrom.countsFrom (cusps_eq ▸ equalHouseCusps_even asc) longitude
  · intro h cusps_eq
    exact EvenFrom.countsFrom (cusps_eq ▸ wholeSignCusps_even nonneg lt) longitude

/-- The equal houses of an ascendant. -/
def equalHouses (asc midheaven : ℚ) : HouseSystem where
  kind := .equal
  cusps := equalHouseCusps asc
  ascendant := asc
  midheaven := midheaven

theorem countsFrom_of_equal_or_wholeSign_45 : (equalHouses 45 0).CountsFrom 45 20 :=
  (countsFrom_of_equal_or_wholeSign 45 20 (by norm_num) (by norm_num)).1 (equalHouses 45 0) rfl

end HouseSystem

end Zodia.Core
