import Mathlib.Data.List.Nodup
import Zodia.Core.Patterns

/-!
# Transits over a chart

What the sky does to a chart at one moment: aspects of its planets to natal planets, aspects
among its planets, and the natal houses they are in. Each of these has an interpretation key.

## Main definitions

* `TransitSet`, `transitsAt` — the full picture of current transits against a natal chart.
* `InForce` — what a key says of the sky and the chart.

## Main results

* `mem_skyKeys` — the keys of the picture are those that hold.
* `nodup_skyKeys` — no key occurs twice.
-/

namespace Zodia.Core

open Lib

/-- A transiting planet making an aspect to a natal planet. -/
structure TransitAspect where
  transiting : Planet
  natalBody : Planet
  kind : AspectKind
  orb : ℚ

def TransitAspect.interpKey (ta : TransitAspect) : InterpKey :=
  .transit ta.transiting ta.natalBody ta.kind

/-- A transiting planet currently occupying a natal house. -/
structure HouseTransit where
  transiting : Planet
  house : Fin 256

def HouseTransit.interpKey (ht : HouseTransit) : InterpKey := .houseTransit ht.transiting ht.house

/-- The full picture of current transits against a natal chart. -/
structure TransitSet where
  transitJdn : ℚ
  sky : PlanetPositions
  transitAspects : List TransitAspect
  houseTransits : List HouseTransit
  skyAspects : List Aspect

/-- Aspects from every transiting planet to every natal planet. -/
def computeTransitAspects (sky natal : PlanetPositions) : List TransitAspect :=
  Planet.all.flatMap fun t =>
    Planet.all.filterMap fun n =>
      (aspectBetween (sky t) (natal n)).map fun found => ⟨t, n, found.1, found.2⟩

/-- House number for each transiting planet, using this chart's cusps. -/
def HouseSystem.housePositions (houses : HouseSystem) (sky : PlanetPositions) :
    List (Planet × Fin 256) :=
  Planet.all.filterMap fun p => (sky p).map fun lon => (p, toU8 (houses.houseOf lon))

/-- Build a `TransitSet` from precomputed sky positions and natal data. -/
def buildTransitSet (transitJdn : ℚ) (sky natal : PlanetPositions)
    (houseTransits : List HouseTransit) : TransitSet :=
  ⟨transitJdn, sky, computeTransitAspects sky natal, houseTransits, computeAspects sky⟩

/-- Current transits to a natal chart, from the positions that the ephemeris has for the time. -/
def transitsAt (computePositions : ℚ → Option PlanetPositions) (natal : PlanetPositions)
    (houses : HouseSystem) (transitJdn : ℚ) : Option TransitSet := do
  let sky ← computePositions transitJdn
  let houseTransits := (houses.housePositions sky).map fun entry => ⟨entry.1, entry.2⟩
  return buildTransitSet transitJdn sky natal houseTransits

/-! ## Keys -/

/-- The keys of everything in the picture. -/
def TransitSet.skyKeys (set : TransitSet) : List InterpKey :=
  set.transitAspects.map TransitAspect.interpKey ++
    set.skyAspects.map (fun aspect => .skyAspect aspect.sig) ++
      set.houseTransits.map HouseTransit.interpKey

/-- What a key says of the sky and a chart. Keys of other kinds say nothing of the sky. -/
def InForce (sky natal : PlanetPositions) (houses : HouseSystem) : InterpKey → Prop
  | .transit p q kind => ∃ a ∈ sky p, ∃ b ∈ natal q, WithinOrb kind (angularSeparation a b)
  | .skyAspect sig => ∃ p q kind, p ≠ q ∧ sig = aspectSig p q kind ∧
      ∃ a ∈ sky p, ∃ b ∈ sky q, WithinOrb kind (angularSeparation a b)
  | .houseTransit p house => ∃ a ∈ sky p, house = toU8 (houses.houseOf a)
  | _ => False

variable {sky natal : PlanetPositions} {houses : HouseSystem}

theorem transitsAt_eq_some {computePositions : ℚ → Option PlanetPositions} {jdn : ℚ}
    {set : TransitSet} (computed : transitsAt computePositions natal houses jdn = some set) :
    computePositions jdn = some set.sky := by
  obtain ⟨sky, here, built⟩ := Option.bind_eq_some_iff.1 computed
  obtain rfl := Option.some.inj built
  exact here

theorem transitsAt_eq_none {computePositions : ℚ → Option PlanetPositions} {jdn : ℚ} :
    transitsAt computePositions natal houses jdn = none ↔ computePositions jdn = none := by
  cases here : computePositions jdn <;> simp [transitsAt, here]

theorem aspectBetween_eq_some {lonA lonB : Option ℚ} {kind : AspectKind} {orb : ℚ} :
    aspectBetween lonA lonB = some (kind, orb) ↔
      ∃ a ∈ lonA, ∃ b ∈ lonB, WithinOrb kind (angularSeparation a b) ∧
        orb = angularSeparation a b - kind.angle := by
  simp [aspectBetween, Option.bind_eq_some_iff, detectAspect_eq_some]

/-- Two positions make an aspect of a kind with some orb. -/
theorem exists_aspectBetween {lonA lonB : Option ℚ} {kind : AspectKind} :
    (∃ orb, aspectBetween lonA lonB = some (kind, orb)) ↔
      ∃ a ∈ lonA, ∃ b ∈ lonB, WithinOrb kind (angularSeparation a b) := by
  simp only [aspectBetween_eq_some]
  constructor
  · rintro ⟨-, a, ha, b, hb, within, -⟩
    exact ⟨a, ha, b, hb, within⟩
  · rintro ⟨a, ha, b, hb, within⟩
    exact ⟨_, a, ha, b, hb, within, rfl⟩

theorem mem_computeTransitAspects {ta : TransitAspect} :
    ta ∈ computeTransitAspects sky natal ↔
      aspectBetween (sky ta.transiting) (natal ta.natalBody) = some (ta.kind, ta.orb) := by
  simp only [computeTransitAspects, List.mem_flatMap, List.mem_filterMap, Option.map_eq_some_iff]
  constructor
  · rintro ⟨t, -, n, -, found, here, rfl⟩
    exact here
  · intro here
    exact ⟨_, Planet.mem_all _, _, Planet.mem_all _, _, here, rfl⟩

theorem mem_computeAspectsFrom {positions : PlanetPositions} {planets : List Planet}
    {aspect : Aspect} :
    aspect ∈ computeAspectsFrom positions planets ↔
      (aspect.bodyA, aspect.bodyB) ∈ pairs planets ∧
        aspectBetween (positions aspect.bodyA) (positions aspect.bodyB) =
          some (aspect.kind, aspect.orb) := by
  induction planets with
  | nil => simp [computeAspectsFrom, pairs]
  | cons a planets ih =>
    simp only [computeAspectsFrom, pairs, List.mem_append, List.mem_filterMap, List.mem_map,
      Option.map_eq_some_iff, ih]
    constructor
    · rintro (⟨b, mem, found, here, rfl⟩ | ⟨mem, here⟩)
      · exact ⟨.inl ⟨b, mem, rfl⟩, here⟩
      · exact ⟨.inr mem, here⟩
    · rintro ⟨⟨b, mem, same⟩ | mem, here⟩
      · obtain ⟨rfl, rfl⟩ := Prod.mk.inj same
        exact .inl ⟨_, mem, _, here, rfl⟩
      · exact .inr ⟨mem, here⟩

theorem mem_housePositions {p : Planet} {house : Fin 256} :
    (p, house) ∈ houses.housePositions sky ↔
      ∃ a ∈ sky p, house = toU8 (houses.houseOf a) := by
  simp only [HouseSystem.housePositions, List.mem_filterMap, Option.map_eq_some_iff, Prod.mk.injEq]
  constructor
  · rintro ⟨p, -, a, mem, rfl, rfl⟩
    exact ⟨a, mem, rfl⟩
  · rintro ⟨a, mem, rfl⟩
    exact ⟨p, Planet.mem_all p, a, mem, rfl, rfl⟩

/-- A key is in the picture of a moment exactly when what it says is so. -/
theorem mem_skyKeys {computePositions : ℚ → Option PlanetPositions} {jdn : ℚ} {set : TransitSet}
    (computed : transitsAt computePositions natal houses jdn = some set) (k : InterpKey) :
    k ∈ set.skyKeys ↔ InForce set.sky natal houses k := by
  obtain ⟨sky, -, built⟩ := Option.bind_eq_some_iff.1 computed
  obtain rfl := Option.some.inj built
  simp only [TransitSet.skyKeys, buildTransitSet, List.mem_append, List.mem_map, or_assoc]
  cases k with
  | transit p q kind =>
    rw [InForce, ← exists_aspectBetween]
    constructor
    · rintro (⟨ta, mem, same⟩ | ⟨_, _, ⟨⟩⟩ | ⟨_, _, ⟨⟩⟩)
      obtain ⟨rfl, rfl, rfl⟩ := InterpKey.transit.inj same
      exact ⟨_, mem_computeTransitAspects.1 mem⟩
    · rintro ⟨orb, here⟩
      exact .inl ⟨⟨p, q, kind, orb⟩, mem_computeTransitAspects.2 here, rfl⟩
  | skyAspect sig =>
    simp only [InForce, ← exists_aspectBetween]
    constructor
    · rintro (⟨_, _, ⟨⟩⟩ | ⟨aspect, mem, same⟩ | ⟨_, _, ⟨⟩⟩)
      obtain rfl := InterpKey.skyAspect.inj same
      exact ⟨_, _, _, (isSimple_computeAspects sky).distinct aspect mem, rfl, _,
        (mem_computeAspectsFrom.1 mem).2⟩
    · rintro ⟨p, q, kind, ne, rfl, orb, here⟩
      right; left
      rcases mem_pairs_or (Planet.mem_all p) (Planet.mem_all q) ne with first | second
      · exact ⟨⟨p, q, kind, orb⟩, mem_computeAspectsFrom.2 ⟨first, here⟩, rfl⟩
      · rw [aspectBetween_comm] at here
        rw [aspectSig_comm]
        exact ⟨⟨q, p, kind, orb⟩, mem_computeAspectsFrom.2 ⟨second, here⟩, rfl⟩
  | houseTransit p house =>
    rw [InForce, ← mem_housePositions]
    constructor
    · rintro (⟨_, _, ⟨⟩⟩ | ⟨_, _, ⟨⟩⟩ | ⟨ht, ⟨entry, mem, rfl⟩, same⟩)
      obtain ⟨rfl, rfl⟩ := InterpKey.houseTransit.inj same
      exact mem
    · exact fun mem => .inr (.inr ⟨_, ⟨_, mem, rfl⟩, rfl⟩)
  | _ => simp [InForce, TransitAspect.interpKey, HouseTransit.interpKey]

/-! ## No key twice -/

theorem nodup_planets : Planet.all.Nodup := by decide

theorem nodup_transitKeys :
    ((computeTransitAspects sky natal).map TransitAspect.interpKey).Nodup := by
  rw [computeTransitAspects, List.map_flatMap, List.nodup_flatMap]
  simp only [List.map_filterMap]
  refine ⟨fun t _ => nodup_planets.filterMap fun n n' k here here' => ?_, ?_⟩
  · simp only [Option.mem_def, Option.map_eq_some_iff] at here here'
    obtain ⟨ta, ⟨found, -, rfl⟩, rfl⟩ := here
    obtain ⟨ta', ⟨found', -, rfl⟩, same⟩ := here'
    exact (InterpKey.transit.inj same).2.1.symm
  · refine nodup_planets.imp fun {t t'} ne => ?_
    rw [Function.onFun, List.disjoint_left]
    intro k here here'
    simp only [List.mem_filterMap, Option.map_eq_some_iff] at here here'
    obtain ⟨n, -, ta, ⟨found, -, rfl⟩, rfl⟩ := here
    obtain ⟨n', -, ta', ⟨found', -, rfl⟩, same⟩ := here'
    exact ne (InterpKey.transit.inj same).1.symm

theorem nodup_sigs (positions : PlanetPositions) :
    ((computeAspects positions).map Aspect.sig).Nodup := by
  have once := (isSimple_computeAspects positions).once
  rw [List.Nodup, List.pairwise_map] at once ⊢
  refine once.imp fun ne same => ne ?_
  rcases aspectSig_inj same with ⟨a, b⟩ | ⟨a, b⟩
  · rw [Aspect.pair, Aspect.pair, a, b]
  · rw [Aspect.pair, Aspect.pair, a, b, Sym2.eq_swap]

theorem nodup_skyAspectKeys :
    ((computeAspects sky).map fun aspect => InterpKey.skyAspect aspect.sig).Nodup := by
  have keys := (nodup_sigs sky).map fun _ _ same => InterpKey.skyAspect.inj same
  rwa [List.map_map] at keys

theorem nodup_houseKeys : ((houses.housePositions sky).map Prod.fst).Nodup := by
  rw [HouseSystem.housePositions, List.map_filterMap]
  refine nodup_planets.filterMap fun p p' q here here' => ?_
  simp only [Option.mem_def, Option.map_eq_some_iff] at here here'
  obtain ⟨entry, ⟨a, -, rfl⟩, rfl⟩ := here
  obtain ⟨entry', ⟨a', -, rfl⟩, same⟩ := here'
  exact same.symm

theorem nodup_skyKeys {computePositions : ℚ → Option PlanetPositions} {jdn : ℚ} {set : TransitSet}
    (computed : transitsAt computePositions natal houses jdn = some set) : set.skyKeys.Nodup := by
  obtain ⟨sky, -, built⟩ := Option.bind_eq_some_iff.1 computed
  obtain rfl := Option.some.inj built
  have houseKeys : ((houses.housePositions sky).map fun entry =>
      HouseTransit.interpKey ⟨entry.1, entry.2⟩).Nodup := by
    have once : ((houses.housePositions sky).map Prod.fst).Nodup := nodup_houseKeys
    rw [List.Nodup, List.pairwise_map] at once ⊢
    exact once.imp fun ne same => ne (InterpKey.houseTransit.inj same).1
  simp only [TransitSet.skyKeys, buildTransitSet, List.map_map]
  refine List.nodup_append.2 ⟨List.nodup_append.2
    ⟨nodup_transitKeys, nodup_skyAspectKeys, ?_⟩, houseKeys, ?_⟩
  · intro k first k' second
    obtain ⟨ta, -, rfl⟩ := List.mem_map.1 first
    obtain ⟨aspect, -, rfl⟩ := List.mem_map.1 second
    nofun
  · intro k first k' second
    obtain ⟨entry, -, rfl⟩ := List.mem_map.1 second
    rcases List.mem_append.1 first with first | first
    · obtain ⟨ta, -, rfl⟩ := List.mem_map.1 first
      nofun
    · obtain ⟨aspect, -, rfl⟩ := List.mem_map.1 first
      nofun

end Zodia.Core
