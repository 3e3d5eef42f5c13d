import Mathlib.Data.Rat.Floor
import Mathlib.Tactic.Linarith

/-!
# Planets, longitudes and aspects

The tables of `core/src/planet.rs` and `core/src/aspects.rs`, over rational longitudes.

## Main definitions

* `Planet`, `AspectKind`.
* `remEuclid`, `angularSeparation` — longitudes on the circle.
* `WithinOrb`, `detectAspect` — aspects with their orbs.
-/

namespace Zodia.Core

/-! ## Planets -/

inductive Planet where
  | sun
  | moon
  | mercury
  | venus
  | mars
  | jupiter
  | saturn
  | uranus
  | neptune
  | pluto
  deriving DecidableEq

/-- The longitudes of some planets, in degrees. -/
abbrev PlanetPositions := Planet → Option ℚ

/-! ## The circle -/

/-- `f64::rem_euclid`, for a positive modulus. -/
def remEuclid (x m : ℚ) : ℚ := x - m * ⌊x / m⌋

/-- Unsigned separation of two longitudes. -/
def angularSeparation (a b : ℚ) : ℚ :=
  let d := remEuclid (b - a) 360
  if 180 < d then 360 - d else d

/-- Up to half a circle ahead. -/
theorem angularSeparation_of_ahead {a b : ℚ} (ahead : a ≤ b) (near : b ≤ a + 180) :
    angularSeparation a b = b - a := by
  have turn : ⌊(b - a) / 360⌋ = 0 := by
    rw [Int.floor_eq_zero_iff]
    exact ⟨by linarith, by linarith⟩
  rw [angularSeparation, remEuclid, turn, Int.cast_zero, mul_zero, sub_zero]
  exact if_neg (by linarith)

/-! ## Aspects -/

inductive AspectKind where
  | conjunction
  | semiSextile
  | sextile
  | square
  | trine
  | quincunx
  | opposition
  deriving DecidableEq

namespace AspectKind

def angle : AspectKind → ℚ
  | conjunction => 0
  | semiSextile => 30
  | sextile => 60
  | square => 90
  | trine => 120
  | quincunx => 150
  | opposition => 180

def defaultOrb : AspectKind → ℚ
  | conjunction => 8
  | opposition => 8
  | trine => 8
  | square => 7
  | sextile => 6
  | semiSextile => 3
  | quincunx => 3

/-- `ASPECTS` -/
def all : List AspectKind :=
  [conjunction, semiSextile, sextile, square, trine, quincunx, opposition]

theorem mem_all (kind : AspectKind) : kind ∈ all := by cases kind <;> decide

end AspectKind

/-- The separation is within the default orb of the aspect. -/
def WithinOrb (kind : AspectKind) (sep : ℚ) : Prop := |sep - kind.angle| ≤ kind.defaultOrb

instance (kind : AspectKind) (sep : ℚ) : Decidable (WithinOrb kind sep) :=
  inferInstanceAs (Decidable (_ ≤ _))

/-- No separation is within the orbs of two aspects. -/
theorem WithinOrb.unique {kind kind' : AspectKind} {sep : ℚ} (h : WithinOrb kind sep)
    (h' : WithinOrb kind' sep) : kind = kind' := by
  obtain ⟨low, high⟩ := abs_le.1 h
  obtain ⟨low', high'⟩ := abs_le.1 h'
  cases kind <;> cases kind' <;> first
    | rfl
    | (simp only [AspectKind.angle, AspectKind.defaultOrb] at low high low' high'; linarith)

/-- The aspect of a separation, and how far it is from exact. -/
def detectAspect (sep : ℚ) : Option (AspectKind × ℚ) :=
  AspectKind.all.findSome? fun kind =>
    if WithinOrb kind sep then some (kind, sep - kind.angle) else none

theorem detectAspect_eq_some {sep : ℚ} {kind : AspectKind} {orb : ℚ} :
    detectAspect sep = some (kind, orb) ↔ WithinOrb kind sep ∧ orb = sep - kind.angle := by
  have found : ∀ {kind orb}, detectAspect sep = some (kind, orb) →
      WithinOrb kind sep ∧ orb = sep - kind.angle := by
    intro kind orb h
    obtain ⟨kind', -, here⟩ := List.exists_of_findSome?_eq_some h
    grind
  refine ⟨found, ?_⟩
  rintro ⟨within, rfl⟩
  have some : (detectAspect sep).isSome := by
    rw [detectAspect, List.findSome?_isSome_iff]
    exact ⟨kind, kind.mem_all, by rw [if_pos within]; rfl⟩
  obtain ⟨⟨kind', orb⟩, h⟩ := Option.isSome_iff_exists.1 some
  obtain ⟨within', rfl⟩ := found h
  obtain rfl := within.unique within'
  exact h

end Zodia.Core
