import Zodia.Core.Houses
import Zodia.Core.InterpKeys
import Zodia.Lib.Groups

/-!
# What a chart emphasises

Three planets or more in one sign or one house are a stellium, and the balance counts the planets
by the element and by the modality of their signs. Stelliums are collected in a hash map.

## Main definitions

* `stelliumsBySign`, `stelliumsByHouse` — the groups, in the order of signs and houses.
* `natalBalance` — planets per element and per modality.
* `bigThree` — the signs of Sun, Moon and Ascendant.

## Main results

* `chart_summary` — the stelliums are what their signs and houses hold, and the balance is the
  sum over the signs.
-/

namespace Zodia.Core

open Lib

/-! ## Signs -/

/-- The sign of a longitude, 0 for Aries. -/
def signOf (lon : ℚ) : ℕ := ⌊remEuclid lon 360 / 30⌋.toNat % 12

theorem signOf_lt (lon : ℚ) : signOf lon < 12 := Nat.mod_lt _ (by decide)

/-- A sign is a twelfth of the circle. -/
theorem signOf_bounds (lon : ℚ) :
    30 * (signOf lon : ℚ) ≤ remEuclid lon 360 ∧ remEuclid lon 360 < 30 * (signOf lon + 1) := by
  obtain ⟨nonneg, lt⟩ := remEuclid_mem lon
  have low : 0 ≤ ⌊remEuclid lon 360 / 30⌋ := Int.floor_nonneg.2 (by positivity)
  have high : ⌊remEuclid lon 360 / 30⌋ < 12 := Int.floor_lt.2 (by push_cast; linarith)
  have small : ⌊remEuclid lon 360 / 30⌋.toNat % 12 = ⌊remEuclid lon 360 / 30⌋.toNat :=
    Nat.mod_eq_of_lt (by omega)
  have cast : (signOf lon : ℚ) = ⌊remEuclid lon 360 / 30⌋ := by
    rw [signOf, small]
    exact_mod_cast Int.toNat_of_nonneg low
  have floor := Int.floor_le (remEuclid lon 360 / 30)
  have next := Int.lt_floor_add_one (remEuclid lon 360 / 30)
  rw [cast]
  constructor <;> linarith

/-- The last degree of a sign. -/
def isCriticalDegree (lon : ℚ) : Bool := 29 ≤ remEuclid (remEuclid lon 360) 30

/-- Sign indices of the bodies asked for most. -/
structure BigThree where
  sunSign : ℕ
  moonSign : ℕ
  ascendantSign : ℕ

def bigThree (positions : PlanetPositions) (houses : HouseSystem) : Option BigThree := do
  let sun ← positions .sun
  let moon ← positions .moon
  return ⟨signOf sun, signOf moon, signOf houses.ascendant⟩

/-! ## Stelliums -/

def minStelliumSize : ℕ := 3

/-- Groups of planets sharing the same sign, sorted by sign index. -/
def stelliumsBySign (order : IterOrder (ℕ × List Planet)) (positions : PlanetPositions) :
    List (ℕ × List Planet) :=
  sortedGroups order minStelliumSize (groupBy (fun p => (positions p).map signOf) Planet.all)

/-- Whether the cusps are those of `HouseSystem.stub`. -/
def HouseSystem.isStub (houses : HouseSystem) : Bool := decide (∀ i, houses.cusps i = 0)

/-- Groups of planets sharing the same house, sorted by house number. -/
def stelliumsByHouse (order : IterOrder (ℕ × List Planet)) (positions : PlanetPositions)
    (houses : HouseSystem) : List (ℕ × List Planet) :=
  if houses.isStub then []
  else sortedGroups order minStelliumSize
    (groupBy (fun p => (positions p).map houses.houseOf) Planet.all)

/-! ## Balance -/

inductive Element where
  | fire
  | earth
  | air
  | water
  deriving DecidableEq

inductive Modality where
  | cardinal
  | fixed
  | mutable
  deriving DecidableEq

/-- Element for a zodiac sign index. -/
def signElement (sign : ℕ) : Element :=
  match sign % 4 with
  | 0 => .fire
  | 1 => .earth
  | 2 => .air
  | _ => .water

/-- Modality for a zodiac sign index. -/
def signModality (sign : ℕ) : Modality :=
  match sign % 3 with
  | 0 => .cardinal
  | 1 => .fixed
  | _ => .mutable

/-- Planet counts per element and modality. -/
structure Balance where
  fire : ℕ := 0
  earth : ℕ := 0
  air : ℕ := 0
  water : ℕ := 0
  cardinal : ℕ := 0
  fixed : ℕ := 0
  mutable : ℕ := 0

namespace Balance

def element (b : Balance) : Element → ℕ
  | .fire => b.fire
  | .earth => b.earth
  | .air => b.air
  | .water => b.water

def modality (b : Balance) : Modality → ℕ
  | .cardinal => b.cardinal
  | .fixed => b.fixed
  | .mutable => b.mutable

def countElement (b : Balance) : Element → Balance
  | .fire => { b with fire := b.fire + 1 }
  | .earth => { b with earth := b.earth + 1 }
  | .air => { b with air := b.air + 1 }
  | .water => { b with water := b.water + 1 }

def countModality (b : Balance) : Modality → Balance
  | .cardinal => { b with cardinal := b.cardinal + 1 }
  | .fixed => { b with fixed := b.fixed + 1 }
  | .mutable => { b with mutable := b.mutable + 1 }

/-- Count a body of a sign. -/
def count (b : Balance) (sign : ℕ) : Balance :=
  (b.countElement (signElement sign)).countModality (signModality sign)

theorem element_count (b : Balance) (sign : ℕ) (e : Element) :
    (b.count sign).element e = b.element e + if signElement sign = e then 1 else 0 := by
  rw [count]
  cases signElement sign <;> cases signModality sign <;> cases e <;> rfl

theorem modality_count (b : Balance) (sign : ℕ) (m : Modality) :
    (b.count sign).modality m = b.modality m + if signModality sign = m then 1 else 0 := by
  rw [count]
  cases signElement sign <;> cases signModality sign <;> cases m <;> rfl

end Balance

/-- Planet counts across all tracked bodies in a chart. -/
def natalBalance (positions : PlanetPositions) : Balance :=
  Planet.all.foldl (fun b p =>
    match positions p with
    | none => b
    | some lon => b.count (signOf lon)) {}

/-! ## What they say -/

variable {positions : PlanetPositions} {houses : HouseSystem}

/-- A count of a balance that each body raises by whether it has a property. -/
theorem foldl_count (get : Balance → ℕ) (has : ℕ → Bool)
    (step : ∀ b sign, get (b.count sign) = get b + if has sign then 1 else 0)
    (planets : List Planet) (b : Balance) :
    get (planets.foldl (fun b p =>
      match positions p with
      | none => b
      | some lon => b.count (signOf lon)) b) =
        get b + planets.countP fun p => ((positions p).map signOf).any has := by
  induction planets generalizing b with
  | nil => rfl
  | cons p planets ih =>
    rw [List.foldl_cons, ih, List.countP_cons]
    cases positions p with
    | none => simp
    | some lon =>
      simp only [step, Option.map_some, Option.any_some]
      omega

/-- The planets in signs with a property are those of the groups of these signs. -/
theorem countP_signs (has : ℕ → Bool) :
    (Planet.all.countP fun p => ((positions p).map signOf).any has) =
      (((List.range 12).filter has).map fun s =>
        (groupOf (fun p => (positions p).map signOf) Planet.all s).length).sum := by
  rw [sum_length_groupOf _ _ (List.nodup_range.filter _)]
  congr 1
  funext p
  cases positions p with
  | none => simp
  | some lon =>
    rw [Bool.eq_iff_iff]
    simp [signOf_lt]

theorem stelliumsBySign_eq (order : IterOrder (ℕ × List Planet)) :
    stelliumsBySign order positions =
      ((List.range 12).map fun s =>
        (s, groupOf (fun p => (positions p).map signOf) Planet.all s)).filter
          fun g => minStelliumSize ≤ g.2.length := by
  refine sortedGroups_groupBy order (by decide) List.pairwise_lt_range fun p _ s own => ?_
  obtain ⟨lon, -, rfl⟩ := Option.map_eq_some_iff.1 own
  exact List.mem_range.2 (signOf_lt lon)

theorem HouseSystem.houseOf_bounds (h : HouseSystem) (lon : ℚ) :
    1 ≤ h.houseOf lon ∧ h.houseOf lon < 1 + 12 := by
  unfold HouseSystem.houseOf
  split <;> omega

theorem stelliumsByHouse_eq (order : IterOrder (ℕ × List Planet)) (real : houses.isStub = false) :
    stelliumsByHouse order positions houses =
      ((List.range' 1 12).map fun n =>
        (n, groupOf (fun p => (positions p).map houses.houseOf) Planet.all n)).filter
          fun g => minStelliumSize ≤ g.2.length := by
  rw [stelliumsByHouse, real]
  refine sortedGroups_groupBy order (by decide) List.pairwise_lt_range' fun p _ n own => ?_
  obtain ⟨lon, -, rfl⟩ := Option.map_eq_some_iff.1 own
  exact List.mem_range'_1.2 (houses.houseOf_bounds lon)

/-- Among ten planets there are at most three groups of three. -/
theorem length_groups_le (key : Planet → Option ℕ) {keys : List ℕ} (nodup : keys.Nodup) :
    ((keys.map fun k => (k, groupOf key Planet.all k)).filter
      fun g => minStelliumSize ≤ g.2.length).length ≤ 3 := by
  have large : ∀ keys : List ℕ,
      minStelliumSize * ((keys.map fun k => (k, groupOf key Planet.all k)).filter
        fun g => minStelliumSize ≤ g.2.length).length ≤
          (keys.map fun k => (groupOf key Planet.all k).length).sum := by
    intro keys
    induction keys with
    | nil => rfl
    | cons k keys ih =>
      rw [List.map_cons, List.map_cons, List.sum_cons, List.filter_cons]
      split_ifs with enough
      · have enough := of_decide_eq_true enough
        rw [List.length_cons, Nat.mul_add, Nat.mul_one]
        dsimp only at enough
        omega
      · omega
  have few := large keys
  rw [sum_length_groupOf key Planet.all nodup] at few
  have all : Planet.all.countP (fun p => keys.any fun k => key p = some k) ≤ 10 :=
    List.countP_le_length
  simp only [minStelliumSize] at few ⊢
  omega

/-- **The summary of a chart.** The stelliums are the signs, and the houses that are no stub, with
three planets or more, in order, each with its planets in the order of all planets; the order of
the hash map does not matter, and there are at most three of each. The counts of the balance are
the sizes of the signs' groups, summed over the signs of the element or of the modality. -/
theorem chart_summary (order order' : IterOrder (ℕ × List Planet)) (positions : PlanetPositions)
    (houses : HouseSystem) :
    let bySign := groupOf (fun p => (positions p).map signOf) Planet.all
    let byHouse := groupOf (fun p => (positions p).map houses.houseOf) Planet.all
    stelliumsBySign order positions =
      ((List.range 12).map fun s => (s, bySign s)).filter (fun g => 3 ≤ g.2.length) ∧
    stelliumsByHouse order' positions houses =
      (if houses.isStub then []
        else ((List.range' 1 12).map fun n => (n, byHouse n)).filter fun g => 3 ≤ g.2.length) ∧
    (stelliumsBySign order positions).length ≤ 3 ∧
    (stelliumsByHouse order' positions houses).length ≤ 3 ∧
    (∀ e, (natalBalance positions).element e =
      (((List.range 12).filter fun s => signElement s = e).map fun s => (bySign s).length).sum) ∧
    ∀ m, (natalBalance positions).modality m =
      (((List.range 12).filter fun s => signModality s = m).map fun s => (bySign s).length).sum := by
  intro bySign byHouse
  refine ⟨stelliumsBySign_eq order, ?_, ?_, ?_, fun e => ?_, fun m => ?_⟩
  · split_ifs with stub
    · rw [stelliumsByHouse, if_pos stub]
    · exact stelliumsByHouse_eq order' (Bool.eq_false_iff.2 stub)
  · rw [stelliumsBySign_eq]
    exact length_groups_le _ List.nodup_range
  · cases stub : houses.isStub with
    | true => rw [stelliumsByHouse, stub]; exact Nat.zero_le 3
    | false =>
      rw [stelliumsByHouse_eq order' stub]
      exact length_groups_le _ List.nodup_range'
  · rw [← countP_signs fun s => decide (signElement s = e), natalBalance,
      foldl_count (·.element e) (fun s => decide (signElement s = e))
        fun b sign => by simpa using b.element_count sign e]
    cases e <;> exact Nat.zero_add _
  · rw [← countP_signs fun s => decide (signModality s = m), natalBalance,
      foldl_count (·.modality m) (fun s => decide (signModality s = m))
        fun b sign => by simpa using b.modality_count sign m]
    cases m <;> exact Nat.zero_add _

end Zodia.Core
