import Mathlib.Data.Multiset.Bind
import Zodia.Core.Houses
import Zodia.Core.InterpKeys

/-!
# Aspects within a chart and between two charts

The two computations of `core/src/aspects.rs`, the canonical strings of what they find, and the
strings that the app looks up for a stargazer.

## Main definitions

* `Aspect`, `computeAspects` — within one chart.
* `SynastryAspect`, `computeSynastry` — between two charts.
* `collectKeySigs` — the keys looked up for an exchange.

## Main results

* `synastry_symmetric` — two charts have the same aspects from both sides.
-/

namespace Zodia.Core

open Lib

/-! ## The separation -/

theorem remEuclid_neg {x : ℚ} (ne : remEuclid x 360 ≠ 0) :
    remEuclid (-x) 360 = 360 - remEuclid x 360 := by
  obtain ⟨nonneg, lt⟩ := remEuclid_mem x
  have pos : 0 < remEuclid x 360 := lt_of_le_of_ne nonneg ne.symm
  have place : -x = 360 - remEuclid x 360 - 360 * ((⌊x / 360⌋ + 1 : ℤ) : ℚ) := by
    rw [remEuclid]
    push_cast
    ring
  rw [place, remEuclid_sub_turns, remEuclid_of_mem (by linarith) (by linarith)]

theorem remEuclid_neg_of_eq_zero {x : ℚ} (eq : remEuclid x 360 = 0) : remEuclid (-x) 360 = 0 := by
  have place : -x = 0 - 360 * (⌊x / 360⌋ : ℤ) := by
    rw [remEuclid] at eq
    linarith
  rw [place, remEuclid_sub_turns, remEuclid_of_mem le_rfl (by norm_num)]

theorem angularSeparation_comm (a b : ℚ) : angularSeparation a b = angularSeparation b a := by
  have back : a - b = -(b - a) := by ring
  simp only [angularSeparation, back]
  by_cases zero : remEuclid (b - a) 360 = 0
  · rw [zero, remEuclid_neg_of_eq_zero zero]
  · rw [remEuclid_neg zero]
    split_ifs <;> linarith

theorem angularSeparation_mem (a b : ℚ) :
    0 ≤ angularSeparation a b ∧ angularSeparation a b ≤ 180 := by
  obtain ⟨nonneg, lt⟩ := remEuclid_mem (b - a)
  simp only [angularSeparation]
  split_ifs <;> constructor <;> linarith

theorem angularSeparation_rotate (a b turn : ℚ) :
    angularSeparation (a + turn) (b + turn) = angularSeparation a b := by
  rw [angularSeparation, add_sub_add_right_eq_sub]
  rfl

/-! ## Aspects -/

/-- Sort two planet names so that the strings are canonical. -/
def sortedNames (a b : Planet) : List Char × List Char :=
  if textLe a.name b.name then (a.name, b.name) else (b.name, a.name)

theorem sortedNames_comm (a b : Planet) : sortedNames a b = sortedNames b a := by
  simp only [sortedNames]
  split_ifs with le ge ge
  · rw [textLe_antisymm le ge]
  · rfl
  · rfl
  · exact absurd (textLe_total a.name b.name) (by simp [le, ge])

/-- The canonical string of an aspect between two bodies. -/
def aspectSig (a b : Planet) (kind : AspectKind) : List Char :=
  let names := sortedNames a b
  names.1 ++ '_' :: (kind.name ++ '_' :: names.2)

/-- An aspect between two bodies in the same chart. -/
structure Aspect where
  bodyA : Planet
  bodyB : Planet
  kind : AspectKind
  orb : ℚ
  deriving DecidableEq

def Aspect.sig (aspect : Aspect) : List Char := aspectSig aspect.bodyA aspect.bodyB aspect.kind

/-- An aspect between a body in one chart and a body in another. -/
structure SynastryAspect where
  bodyA : Planet
  bodyB : Planet
  kind : AspectKind
  orb : ℚ
  deriving DecidableEq

def SynastryAspect.sig (aspect : SynastryAspect) : List Char :=
  aspectSig aspect.bodyA aspect.bodyB aspect.kind

/-- The aspect of two bodies, if both have a place. -/
def aspectBetween (lonA lonB : Option ℚ) : Option (AspectKind × ℚ) := do
  let lonA ← lonA
  let lonB ← lonB
  detectAspect (angularSeparation lonA lonB)

/-- The loops of `compute_aspects`: every body with each one after it. -/
def computeAspectsFrom (positions : PlanetPositions) : List Planet → List Aspect
  | [] => []
  | a :: planets =>
    (planets.filterMap fun b =>
      (aspectBetween (positions a) (positions b)).map fun found => ⟨a, b, found.1, found.2⟩) ++
        computeAspectsFrom positions planets

/-- All aspects within a single set of positions. -/
def computeAspects (positions : PlanetPositions) : List Aspect :=
  computeAspectsFrom positions Planet.all

/-- All aspects between two sets of positions. -/
def computeSynastry (a b : PlanetPositions) : List SynastryAspect :=
  Planet.all.flatMap fun pa =>
    Planet.all.filterMap fun pb =>
      (aspectBetween (a pa) (b pb)).map fun found => ⟨pa, pb, found.1, found.2⟩

inductive SynastryTone where
  | harmonious
  | balanced
  | challenging
  deriving DecidableEq

namespace SynastryTone

def glyph : SynastryTone → String
  | harmonious => "✨"
  | balanced => "•"
  | challenging => "⚡"

def label : SynastryTone → String
  | harmonious => "Harmonious"
  | balanced => "Balanced"
  | challenging => "Challenging"

end SynastryTone

def aspectWeight : AspectKind → ℤ
  | .trine | .sextile => 1
  | .square | .opposition => -1
  | .conjunction | .semiSextile | .quincunx => 0

/-- A rough tone at a glance, with a generous middle band. -/
def synastryTone (aspects : List SynastryAspect) : SynastryTone :=
  let score := (aspects.map fun aspect => aspectWeight aspect.kind).sum
  if 3 ≤ score then .harmonious else if score ≤ -3 then .challenging else .balanced

/-- The keys of the aspects in a chart. -/
def natalKeySigs (chart : Option PlanetPositions) : List (List Char) :=
  match chart with
  | some positions =>
    (computeAspects positions).map fun aspect => (InterpKey.natal aspect.sig).toSig
  | none => []

/-- The keys of the aspects between our chart and theirs. -/
def synastryKeySigs (theirChart ourChart : Option PlanetPositions) : List (List Char) :=
  match theirChart, ourChart with
  | some theirs, some ours =>
    (computeSynastry ours theirs).map fun aspect => (InterpKey.synastry aspect.sig).toSig
  | _, _ => []

/-- The keys that `collect_entries_for_stargazer` looks up. -/
def collectKeySigs (theirChart ourChart : Option PlanetPositions) : List (List Char) :=
  natalKeySigs theirChart ++ synastryKeySigs theirChart ourChart

/-! ## The other side -/

theorem aspectSig_comm (a b : Planet) (kind : AspectKind) :
    aspectSig a b kind = aspectSig b a kind := by
  rw [aspectSig, sortedNames_comm]
  rfl

/-- The string of an aspect names its planets and its kind. -/
theorem aspectSig_eq_iff {a b a' b' : Planet} {kind kind' : AspectKind} :
    aspectSig a b kind = aspectSig a' b' kind' ↔
      kind = kind' ∧ ((a = a' ∧ b = b') ∨ (a = b' ∧ b = a')) := by
  have shape (a b : Planet) (kind : AspectKind) : ∃ p q : Planet,
      ((p = a ∧ q = b) ∨ (p = b ∧ q = a)) ∧
        aspectSig a b kind = p.name ++ (kind.needle ++ q.name) := by
    unfold aspectSig sortedNames
    split_ifs
    · exact ⟨a, b, .inl ⟨rfl, rfl⟩, by simp [AspectKind.needle]⟩
    · exact ⟨b, a, .inr ⟨rfl, rfl⟩, by simp [AspectKind.needle]⟩
  constructor
  · intro h
    obtain ⟨p, q, own, sig⟩ := shape a b kind
    obtain ⟨p', q', own', sig'⟩ := shape a' b' kind'
    rw [sig, sig'] at h
    have read := congrArg (fun rest => parseTransit rest transitKinds) h
    simp only [parseTransit_sig, Option.some.injEq, InterpKey.transit.injEq] at read
    obtain ⟨rfl, rfl, rfl⟩ := read
    grind
  · rintro ⟨rfl, ⟨rfl, rfl⟩ | ⟨rfl, rfl⟩⟩
    · rfl
    · exact aspectSig_comm _ _ _

theorem aspectSig_inj {a b a' b' : Planet} {kind kind' : AspectKind}
    (h : aspectSig a b kind = aspectSig a' b' kind') :
    (a = a' ∧ b = b') ∨ (a = b' ∧ b = a') := (aspectSig_eq_iff.1 h).2

theorem aspectBetween_comm (lonA lonB : Option ℚ) :
    aspectBetween lonA lonB = aspectBetween lonB lonA := by
  cases lonA <;> cases lonB <;> simp [aspectBetween, angularSeparation_comm]

/-- The aspect as the other side has it. -/
def SynastryAspect.swap (aspect : SynastryAspect) : SynastryAspect :=
  ⟨aspect.bodyB, aspect.bodyA, aspect.kind, aspect.orb⟩

@[simp] theorem SynastryAspect.sig_swap (aspect : SynastryAspect) : aspect.swap.sig = aspect.sig :=
  aspectSig_comm _ _ _

theorem coe_flatMap_filterMap {α β γ : Type*} (l : List α) (l' : List β) (f : α → β → Option γ) :
    ((l.flatMap fun x => l'.filterMap (f x) : List γ) : Multiset γ) =
      (l : Multiset α).bind fun x => (l' : Multiset β).bind fun y => ((f x y).toList : List γ) := by
  simp only [Multiset.coe_bind, List.filterMap_eq_flatMap_toList]

/-- The loops over two lists can be exchanged. -/
theorem coe_flatMap_comm {α β γ : Type*} (l : List α) (l' : List β) (f : α → β → Option γ) :
    ((l.flatMap fun x => l'.filterMap (f x) : List γ) : Multiset γ) =
      (l'.flatMap fun y => l.filterMap fun x => f x y : List γ) := by
  rw [coe_flatMap_filterMap, coe_flatMap_filterMap, Multiset.bind_bind]

theorem computeSynastry_swap (a b : PlanetPositions) :
    (computeSynastry b a : Multiset SynastryAspect) =
      (computeSynastry a b : Multiset SynastryAspect).map SynastryAspect.swap := by
  have turned (pa pb : Planet) :
      (aspectBetween (b pa) (a pb)).map
          (fun found => (⟨pa, pb, found.1, found.2⟩ : SynastryAspect)) =
        ((aspectBetween (a pb) (b pa)).map fun found =>
          (⟨pb, pa, found.1, found.2⟩ : SynastryAspect)).map SynastryAspect.swap := by
    rw [aspectBetween_comm, Option.map_map]
    rfl
  rw [Multiset.map_coe, computeSynastry, coe_flatMap_comm, computeSynastry, List.map_flatMap]
  simp only [turned, List.map_filterMap]

/-- What does not tell the sides apart is the same from both. -/
theorem computeSynastry_comm {α : Type*} (a b : PlanetPositions) {read : SynastryAspect → α}
    (even : ∀ aspect, read aspect.swap = read aspect) :
    ((computeSynastry a b).map read : Multiset α) = (computeSynastry b a).map read := by
  rw [← Multiset.map_coe, ← Multiset.map_coe, computeSynastry_swap a b, Multiset.map_map]
  exact Multiset.map_congr rfl fun aspect _ => (even aspect).symm

theorem synastryKeySigs_comm (chart chart' : Option PlanetPositions) :
    (synastryKeySigs chart chart' : Multiset (List Char)) = synastryKeySigs chart' chart := by
  cases chart with
  | none => cases chart' <;> rfl
  | some theirs =>
    cases chart' with
    | none => rfl
    | some ours => exact computeSynastry_comm ours theirs fun aspect => by rw [aspect.sig_swap]

/-- **Synastry is symmetric**: the strings with their orbs are the same from both sides, so both
sides look up the same keys. The separation does not depend on the order of the longitudes nor
on where they are counted from, and it is at most half a circle. -/
theorem synastry_symmetric :
    (∀ a b : PlanetPositions,
      ((computeSynastry a b).map fun aspect => (aspect.sig, aspect.orb) :
          Multiset (List Char × ℚ)) =
        (computeSynastry b a).map fun aspect => (aspect.sig, aspect.orb)) ∧
      (∀ chart chart' : Option PlanetPositions, ∃ keys keys',
        collectKeySigs chart chart' = natalKeySigs chart ++ keys ∧
          collectKeySigs chart' chart = natalKeySigs chart' ++ keys' ∧
          (keys : Multiset (List Char)) = keys') ∧
      ∀ x y : ℚ, angularSeparation x y = angularSeparation y x ∧
        (0 ≤ angularSeparation x y ∧ angularSeparation x y ≤ 180) ∧
        ∀ turn : ℚ, angularSeparation (x + turn) (y + turn) = angularSeparation x y := by
  refine ⟨fun a b => ?_, fun chart chart' => ?_, fun x y => ?_⟩
  · exact computeSynastry_comm a b fun aspect => by rw [aspect.sig_swap]; rfl
  · exact ⟨_, _, rfl, rfl, synastryKeySigs_comm chart chart'⟩
  · exact ⟨angularSeparation_comm x y, angularSeparation_mem x y, angularSeparation_rotate x y⟩

end Zodia.Core
