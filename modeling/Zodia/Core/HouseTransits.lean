import Zodia.Core.Houses
import Zodia.Core.TransitWindow

/-!
# House transit windows

How `core/src/transit.rs` finds the time for which a planet stays in the house it is in: it scans
away from the moment in steps of the planet's pace until a sample lies in another house, up to a
cap. On the cap it returns the cap itself, which need not be a sample.

## Main definitions

* `planetStepDays`, `planetCapDays`, `houseTransitWindow`.
* `WindowInside` — what a window promises.

## Main results

* `windowInside_iff` — where the window keeps the promise.
-/

namespace Zodia.Core

/-! ## The scan -/

/-- Days per step for the house-window scan. -/
def planetStepDays : Planet → ℚ
  | .moon => 1 / 20
  | .sun | .mercury | .venus => 1 / 2
  | .mars => 1
  | .jupiter => 5
  | .saturn => 15
  | .uranus => 30
  | .neptune => 60
  | .pluto => 90

/-- Upper bound on the half-window scan. -/
def planetCapDays : Planet → ℚ
  | .moon => 5
  | .sun | .mercury | .venus => 60
  | .mars => 180
  | .jupiter => 730
  | .saturn => 1825
  | .uranus => 3650
  | .neptune => 5475
  | .pluto => 10950

theorem planetStepDays_pos (p : Planet) : 0 < planetStepDays p := by
  cases p <;> norm_num [planetStepDays]

theorem planetStepDays_le_cap (p : Planet) : planetStepDays p ≤ planetCapDays p := by
  cases p <;> norm_num [planetStepDays, planetCapDays]

theorem planetCapDays_nonneg (p : Planet) : 0 ≤ planetCapDays p :=
  (planetStepDays_pos p).le.trans (planetStepDays_le_cap p)

/-- Whether the planet is in the given house at `t`. -/
def inSameHouse (lon : ℚ → Option ℚ) (houses : HouseSystem) (curHouse : ℕ) (t : ℚ) : Bool :=
  match lon t with
  | some l => houses.houseOf l == curHouse
  | none => false

def houseTransitWindow (lon : ℚ → Option ℚ) (p : Planet) (houses : HouseSystem) (jdn : ℚ) :
    ℚ × ℚ :=
  match lon jdn with
  | none => (jdn, jdn)
  | some curLon =>
    let curHouse := houses.houseOf curLon
    -- meant for the stub system
    if curHouse = 0 then (jdn, jdn)
    else
      let step := planetStepDays p
      let cap := planetCapDays p
      let pos := planetStepDays_pos p
      (scanBack (inSameHouse lon houses curHouse) jdn step cap pos jdn,
        scanAhead (inSameHouse lon houses curHouse) jdn step cap pos jdn)

/-! ## One side of a scan -/

section Side

variable (good : ℚ → Bool) (origin : ℚ) {step cap : ℚ} (pos : 0 < step) (room : 0 ≤ cap)

include pos room

theorem mul_le_cap_iff (k : ℕ) : k * step ≤ cap ↔ k ≤ ⌊cap / step⌋₊ := by
  rw [Nat.le_floor_iff (div_nonneg room pos.le), le_div_iff₀ pos]

/-- The scan ends on a good time if and only if it meets a bad sample or the cap is good. -/
theorem scanBack_inside_iff (now : good origin = true) :
    (scanBack good origin step cap pos origin ≤ origin ∧
      good (scanBack good origin step cap pos origin) = true ∧
      ∀ k : ℕ, scanBack good origin step cap pos origin ≤ origin - k * step →
        good (origin - k * step) = true) ↔
      (∃ k : ℕ, k * step ≤ cap ∧ good (origin - k * step) ≠ true) ∨
        good (origin - cap) = true := by
  obtain ⟨n, run, stop⟩ := exists_isRun_scanBack good origin pos room
  have sample : ∀ k ≤ n, good (origin - k * step) = true := by
    intro k le
    rcases Nat.eq_zero_or_pos k with rfl | kpos
    · rwa [Nat.cast_zero, zero_mul, sub_zero]
    · exact run.holds k kpos le
  rw [stop]
  by_cases all : n = ⌊cap / step⌋₊
  · rw [if_pos all]
    constructor
    · rintro ⟨-, good, -⟩
      exact .inr good
    · rintro (⟨k, near, bad⟩ | good)
      · exact absurd (sample k (all ▸ (mul_le_cap_iff pos room k).1 near)) bad
      · refine ⟨by linarith, good, fun k le => sample k ?_⟩
        rw [all, ← mul_le_cap_iff pos room]
        linarith
  · rw [if_neg all]
    have lt : n < ⌊cap / step⌋₊ := lt_of_le_of_ne run.le all
    have bad : good (origin - ((n + 1 : ℕ) : ℚ) * step) ≠ true := run.ends.resolve_left all
    have nonneg : 0 ≤ (n : ℚ) * step := mul_nonneg (Nat.cast_nonneg n) pos.le
    refine ⟨fun _ => .inl ⟨n + 1, (mul_le_cap_iff pos room _).2 lt, bad⟩, fun _ => ?_⟩
    refine ⟨by linarith, sample n le_rfl, fun k le => sample k ?_⟩
    have near : (k : ℚ) * step ≤ n * step := by linarith
    exact_mod_cast le_of_mul_le_mul_right near pos

/-- The scan stays where it is if and only if the first sample is bad. -/
theorem scanBack_eq_origin_iff (one : step ≤ cap) :
    scanBack good origin step cap pos origin = origin ↔ good (origin - step) ≠ true := by
  obtain ⟨n, run, stop⟩ := exists_isRun_scanBack good origin pos room
  have first : 1 ≤ ⌊cap / step⌋₊ := by
    rw [← mul_le_cap_iff pos room, Nat.cast_one, one_mul]
    exact one
  have at_one : origin - ((1 : ℕ) : ℚ) * step = origin - step := by
    rw [Nat.cast_one, one_mul]
  rw [stop]
  rcases Nat.eq_zero_or_pos n with rfl | npos
  · rw [if_neg (by omega), Nat.cast_zero, zero_mul, sub_zero, ← at_one]
    exact ⟨fun _ => run.ends.resolve_left (by omega), fun _ => rfl⟩
  · have moved : 0 < (n : ℚ) * step := mul_pos (Nat.cast_pos.2 npos) pos
    have good := run.holds 1 one_pos npos
    rw [at_one] at good
    constructor
    · split_ifs <;> intro eq <;> linarith
    · exact fun bad => absurd good bad

theorem scanAhead_inside_iff (now : good origin = true) :
    (origin ≤ scanAhead good origin step cap pos origin ∧
      good (scanAhead good origin step cap pos origin) = true ∧
      ∀ k : ℕ, origin + k * step ≤ scanAhead good origin step cap pos origin →
        good (origin + k * step) = true) ↔
      (∃ k : ℕ, k * step ≤ cap ∧ good (origin + k * step) ≠ true) ∨
        good (origin + cap) = true := by
  have mirror (x : ℚ) : -(-origin - x) = origin + x := by ring
  have reach (k : ℕ) (x : ℚ) : -x ≤ -origin - k * step ↔ origin + k * step ≤ x := by
    constructor <;> intro <;> linarith
  have side := scanBack_inside_iff (fun t => good (-t)) (-origin) pos room (by rwa [neg_neg])
  have turned : scanBack (fun t => good (-t)) (-origin) step cap pos (-origin) =
      -scanAhead good origin step cap pos origin := by
    rw [scanAhead_eq_neg, neg_neg]
  simpa only [turned, mirror, reach, neg_neg, neg_le_neg_iff] using side

theorem scanAhead_eq_origin_iff (one : step ≤ cap) :
    scanAhead good origin step cap pos origin = origin ↔ good (origin + step) ≠ true := by
  have mirror : -(-origin - step) = origin + step := by ring
  have side := scanBack_eq_origin_iff (fun t => good (-t)) (-origin) pos room one
  rw [mirror] at side
  rw [scanAhead_eq_neg, neg_eq_iff_eq_neg, side]

end Side

/-! ## What a window promises -/

section Window

variable (lon : ℚ → Option ℚ) (p : Planet) (houses : HouseSystem) (jdn : ℚ)

/-- The house at `t`, if the planet has a position. -/
def houseAt (t : ℚ) : Option ℕ := (lon t).map houses.houseOf

/-- The planet is in the same house at both ends and at every sample between them. -/
structure WindowInside (window : ℚ × ℚ) : Prop where
  start_le : window.1 ≤ jdn
  le_stop : jdn ≤ window.2
  start : houseAt lon houses window.1 = houseAt lon houses jdn
  stop : houseAt lon houses window.2 = houseAt lon houses jdn
  before : ∀ k : ℕ, window.1 ≤ jdn - k * planetStepDays p →
    houseAt lon houses (jdn - k * planetStepDays p) = houseAt lon houses jdn
  after : ∀ k : ℕ, jdn + k * planetStepDays p ≤ window.2 →
    houseAt lon houses (jdn + k * planetStepDays p) = houseAt lon houses jdn
  stub : houses = .stub → window = (jdn, jdn)

/-- The scan back meets a sample in another house, or the cap is in the same one. -/
def SettlesBefore : Prop :=
  (∃ k : ℕ, k * planetStepDays p ≤ planetCapDays p ∧
    houseAt lon houses (jdn - k * planetStepDays p) ≠ houseAt lon houses jdn) ∨
  houseAt lon houses (jdn - planetCapDays p) = houseAt lon houses jdn

def SettlesAfter : Prop :=
  (∃ k : ℕ, k * planetStepDays p ≤ planetCapDays p ∧
    houseAt lon houses (jdn + k * planetStepDays p) ≠ houseAt lon houses jdn) ∨
  houseAt lon houses (jdn + planetCapDays p) = houseAt lon houses jdn

variable {lon jdn}

theorem inSameHouse_eq_true_iff {curLon t : ℚ} (now : lon jdn = some curLon) :
    inSameHouse lon houses (houses.houseOf curLon) t = true ↔
      houseAt lon houses t = houseAt lon houses jdn := by
  cases pos : lon t <;> simp [inSameHouse, houseAt, pos, now]

/-- The stub system has every planet in the first house. -/
theorem houseAt_stub (t : ℚ) : houseAt lon .stub t = (lon t).map fun _ => 1 := by
  have first (longitude : ℚ) : HouseSystem.stub.houseOf longitude = 1 := by
    refine HouseSystem.houseOf_eq (i := 0) ?_
    rw [HouseSystem.firstContaining_eq_some_iff]
    refine ⟨?_, fun j before => absurd before (Fin.not_lt_zero j)⟩
    have nonneg := (remEuclid_mem longitude).1
    simp [HouseSystem.contains, HouseSystem.stub, nonneg]
  rw [houseAt, funext first]

theorem houseAt_stub_ne_iff {curLon t : ℚ} (now : lon jdn = some curLon) :
    houseAt lon .stub t ≠ houseAt lon .stub jdn ↔ lon t = none := by
  cases pos : lon t <;> simp [houseAt_stub, pos, now]

theorem houseTransitWindow_of_none (fails : lon jdn = none) :
    houseTransitWindow lon p houses jdn = (jdn, jdn) := by
  simp only [houseTransitWindow, fails]

/-- House numbers start at one, so the test for the stub system never holds. -/
theorem houseTransitWindow_of_some {curLon : ℚ} (now : lon jdn = some curLon) :
    houseTransitWindow lon p houses jdn =
      (scanBack (inSameHouse lon houses (houses.houseOf curLon)) jdn (planetStepDays p)
        (planetCapDays p) (planetStepDays_pos p) jdn,
      scanAhead (inSameHouse lon houses (houses.houseOf curLon)) jdn (planetStepDays p)
        (planetCapDays p) (planetStepDays_pos p) jdn) := by
  simp only [houseTransitWindow, now, if_neg (houses.houseOf_ne_zero curLon)]

variable (lon jdn)

/-- **The window keeps its promise if and only if the moment has no position, or each side
settles and, in the stub system, the samples next to the moment have no position.** -/
theorem windowInside_iff :
    WindowInside lon p houses jdn (houseTransitWindow lon p houses jdn) ↔
      lon jdn = none ∨
        (SettlesBefore lon p houses jdn ∧ SettlesAfter lon p houses jdn ∧
          (houses = .stub →
            lon (jdn - planetStepDays p) = none ∧ lon (jdn + planetStepDays p) = none)) := by
  have pos := planetStepDays_pos p
  have room := planetCapDays_nonneg p
  cases now : lon jdn with
  | none =>
    rw [houseTransitWindow_of_none p houses now]
    refine ⟨fun _ => .inl rfl, fun _ => ?_⟩
    have stays (k : ℕ) (le : (k : ℚ) * planetStepDays p ≤ 0) : (k : ℚ) * planetStepDays p = 0 :=
      le_antisymm le (mul_nonneg (Nat.cast_nonneg k) pos.le)
    refine ⟨le_rfl, le_rfl, rfl, rfl, fun k le => ?_, fun k le => ?_, fun _ => rfl⟩
    · rw [stays k (by linarith), sub_zero]
    · rw [stays k (by linarith), add_zero]
  | some curLon =>
    have same {t : ℚ} := inSameHouse_eq_true_iff houses (t := t) now
    have here := same.2 (rfl : houseAt lon houses jdn = _)
    have back := scanBack_inside_iff _ jdn pos room here
    have ahead := scanAhead_inside_iff _ jdn pos room here
    have still := scanBack_eq_origin_iff (inSameHouse lon houses (houses.houseOf curLon)) jdn pos
      room (planetStepDays_le_cap p)
    have still' := scanAhead_eq_origin_iff (inSameHouse lon houses (houses.houseOf curLon)) jdn pos
      room (planetStepDays_le_cap p)
    simp only [ne_eq, same] at back ahead still still'
    rw [houseTransitWindow_of_some p houses now]
    constructor
    · intro window
      refine .inr ⟨back.1 ⟨window.start_le, window.start, window.before⟩,
        ahead.1 ⟨window.le_stop, window.stop, window.after⟩, ?_⟩
      rintro rfl
      obtain ⟨startHere, stopHere⟩ := Prod.mk.inj (window.stub rfl)
      exact ⟨(houseAt_stub_ne_iff now).1 (still.1 startHere),
        (houseAt_stub_ne_iff now).1 (still'.1 stopHere)⟩
    · rintro (never | ⟨settles, settles', alone⟩)
      · exact absurd never (Option.some_ne_none curLon)
      · obtain ⟨startLe, start, before⟩ := back.2 settles
        obtain ⟨leStop, stop, after⟩ := ahead.2 settles'
        refine ⟨startLe, leStop, start, stop, before, after, ?_⟩
        rintro rfl
        obtain ⟨prev, next⟩ := alone rfl
        rw [still.2 ((houseAt_stub_ne_iff now).2 prev),
          still'.2 ((houseAt_stub_ne_iff now).2 next)]

end Window

/-! ## Windows that do not -/

/-- A chart whose first house is sixty degrees wide. -/
def wideHouses : HouseSystem where
  kind := .placidus
  cusps := ![0, 60, 90, 120, 150, 165, 180, 240, 270, 300, 330, 345]
  ascendant := 0
  midheaven := 300

/-- A planet that goes a hundredth of a degree a day and enters the first house on day -3640. -/
def slowLon (t : ℚ) : Option ℚ := some ((3640 + t) / 100)

/-- A planet that stands still. -/
def stillLon (_ : ℚ) : Option ℚ := some 0

theorem wideHouses_first {lon : ℚ} (nonneg : 0 ≤ lon) (lt : lon < 60) :
    wideHouses.houseOf lon = 1 := by
  refine HouseSystem.houseOf_eq (i := 0) ?_
  rw [remEuclid_of_mem nonneg (by linarith), HouseSystem.firstContaining_eq_some_iff]
  refine ⟨?_, fun j before => absurd before (Fin.not_lt_zero j)⟩
  simp [HouseSystem.contains, wideHouses, nonneg, lt]

/-- The cap of Uranus is no multiple of its step, and on the cap the planet is one house back.
The stub system has a window of sixty days to each side. -/
theorem windows_not_inside :
    ¬ WindowInside slowLon .uranus wideHouses 0
      (houseTransitWindow slowLon .uranus wideHouses 0) ∧
    ¬ WindowInside stillLon .sun .stub 0 (houseTransitWindow stillLon .sun .stub 0) := by
  constructor
  · intro window
    have now : slowLon 0 = some (3640 / 100) := by norm_num [slowLon]
    have first : wideHouses.houseOf (3640 / 100) = 1 :=
      wideHouses_first (by norm_num) (by norm_num)
    have same {t : ℚ} := inSameHouse_eq_true_iff wideHouses (t := t) now
    have settles := scanBack_inside_iff (inSameHouse slowLon wideHouses
      (wideHouses.houseOf (3640 / 100))) 0 (planetStepDays_pos .uranus)
      (planetCapDays_nonneg .uranus) (same.2 rfl)
    simp only [ne_eq, same] at settles
    rw [houseTransitWindow_of_some .uranus wideHouses now] at window
    rcases settles.1 ⟨window.start_le, window.start, window.before⟩ with ⟨k, near, out⟩ | last
    · have low : (0 : ℚ) ≤ k := Nat.cast_nonneg k
      simp only [planetStepDays, planetCapDays] at near out
      have steps : (k : ℚ) ≤ 121 := by
        have le : k * 30 ≤ 3650 := by exact_mod_cast near
        exact_mod_cast (by omega : k ≤ 121)
      refine out ?_
      simp only [houseAt, slowLon, Option.map_some]
      rw [wideHouses_first (by linarith) (by linarith),
        wideHouses_first (by norm_num) (by norm_num)]
    · have before : wideHouses.houseOf ((3640 + (0 - 3650)) / 100) = 12 := by decide +kernel
      simp only [houseAt, slowLon, planetCapDays, Option.map_some, before, add_zero, first] at last
      exact absurd last (by decide)
  · intro window
    have now : stillLon 0 = some 0 := rfl
    have start := congrArg Prod.fst (window.stub rfl)
    rw [houseTransitWindow_of_some .sun .stub now] at start
    have out := (scanBack_eq_origin_iff _ 0 (planetStepDays_pos .sun) (planetCapDays_nonneg .sun)
      (planetStepDays_le_cap .sun)).1 start
    rw [ne_eq, inSameHouse_eq_true_iff .stub now] at out
    exact out rfl

end Zodia.Core
