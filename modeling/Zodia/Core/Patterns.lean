import Mathlib.Data.Finset.Sym
import Zodia.Core.ChartAspects
import Zodia.Lib.Triples

/-!
# Aspect patterns

The search of `core/src/patterns.rs` for grand trines and T-squares. The aspects are the labelled
edges of a graph on the planets, and a pattern is a triangle of it with certain labels. The
search goes through the triples of planets in order of first appearance, so it meets every
triangle once.

## Main definitions

* `detectPatterns` — the search.
* `Shape`, `Shape.Present` — patterns without an order, and those that a list of aspects has.
* `IsSimple` — aspects between distinct bodies, at most one for every two of them.

## Main results

* `detectPatterns_exact` — the search finds the patterns that are present, each once.
-/

namespace Zodia.Core

open Lib

/-! ## The search -/

inductive ChartPattern where
  /-- Three planets, each trine the other two. -/
  | grandTrine (a b c : Planet)
  /-- Two planets in opposition, both square a third. -/
  | tSquare (apex : Planet) (opposition : Planet × Planet)
  deriving DecidableEq

/-- The place of a planet in its enumeration. -/
def Planet.index : Planet → ℕ
  | sun => 0
  | moon => 1
  | mercury => 2
  | venus => 3
  | mars => 4
  | jupiter => 5
  | saturn => 6
  | uranus => 7
  | neptune => 8
  | pluto => 9

def pairKey (a b : Planet) : Planet × Planet := if a.index ≤ b.index then (a, b) else (b, a)

/-- What the first loop collects. -/
structure Seen where
  lookup : Planet × Planet → Option AspectKind
  seenPlanets : List Planet

namespace Seen

def empty : Seen := ⟨fun _ => none, []⟩

def seePlanet (planets : List Planet) (p : Planet) : List Planet :=
  if p ∈ planets then planets else planets ++ [p]

/-- One aspect of the first loop. -/
def add (s : Seen) (aspect : Aspect) : Seen where
  lookup := Function.update s.lookup (pairKey aspect.bodyA aspect.bodyB) (some aspect.kind)
  seenPlanets := seePlanet (seePlanet s.seenPlanets aspect.bodyA) aspect.bodyB

end Seen

def seenIn (aspects : List Aspect) : Seen := aspects.foldl Seen.add Seen.empty

/-- The T-square of a pair in opposition, if the apex is square both of them. -/
def tSquareOf (lookup : Planet × Planet → Option AspectKind) (oppPair : Planet × Planet)
    (apex : Planet) (sq1 sq2 : Option AspectKind) : Option ChartPattern :=
  let isOpposition := lookup (pairKey oppPair.1 oppPair.2) = some .opposition
  if isOpposition ∧ sq1 = some .square ∧ sq2 = some .square then some (.tSquare apex oppPair)
  else none

/-- The patterns of three planets. -/
def patternsOf (lookup : Planet × Planet → Option AspectKind) (p1 p2 p3 : Planet) :
    List ChartPattern :=
  let ab := lookup (pairKey p1 p2)
  let bc := lookup (pairKey p2 p3)
  let ac := lookup (pairKey p1 p3)
  if ab = some .trine ∧ bc = some .trine ∧ ac = some .trine then [.grandTrine p1 p2 p3]
  else
    -- whichever pair is the opposition, the third planet is the apex
    (tSquareOf lookup (p1, p2) p3 ac bc).toList ++ (tSquareOf lookup (p1, p3) p2 ab bc).toList ++
      (tSquareOf lookup (p2, p3) p1 ab ac).toList

/-- Every grand trine and T-square among the aspects. -/
def detectPatterns (aspects : List Aspect) : List ChartPattern :=
  let seen := seenIn aspects
  (triples seen.seenPlanets).flatMap fun t => patternsOf seen.lookup t.1 t.2.1 t.2.2

/-! ## Patterns in no order -/

/-- A pattern without the order of its bodies. -/
inductive Shape where
  | grandTrine (bodies : Finset Planet)
  | tSquare (apex : Planet) (opposition : Sym2 Planet)
  deriving DecidableEq

def ChartPattern.shape : ChartPattern → Shape
  | grandTrine a b c => .grandTrine {a, b, c}
  | tSquare apex opposition => .tSquare apex s(opposition.1, opposition.2)

/-- The two bodies of an aspect. -/
def Aspect.pair (aspect : Aspect) : Sym2 Planet := s(aspect.bodyA, aspect.bodyB)

/-- The aspect as an edge of the graph. -/
def Aspect.edge (aspect : Aspect) : Sym2 Planet × AspectKind := (aspect.pair, aspect.kind)

/-- Two bodies have an aspect of some kind. -/
def Linked (aspects : List Aspect) (kind : AspectKind) (pair : Sym2 Planet) : Prop :=
  (pair, kind) ∈ aspects.map Aspect.edge

/-- The aspects form the pattern. -/
def Shape.Present (aspects : List Aspect) : Shape → Prop
  | grandTrine bodies =>
    bodies.card = 3 ∧ ∀ p ∈ bodies, ∀ q ∈ bodies, p ≠ q → Linked aspects .trine s(p, q)
  | tSquare apex opposition =>
    Linked aspects .opposition opposition ∧ ∀ p ∈ opposition, Linked aspects .square s(apex, p)

/-- Aspects between distinct bodies, at most one for every two of them. -/
structure IsSimple (aspects : List Aspect) : Prop where
  distinct : ∀ aspect ∈ aspects, aspect.bodyA ≠ aspect.bodyB
  once : (aspects.map Aspect.pair).Nodup

/-! ## What the first loop collects -/

theorem Planet.index_injective : Function.Injective Planet.index := by
  intro p q same
  cases p <;> cases q <;> first | rfl | cases same

theorem pairKey_eq_iff {a b c d : Planet} : pairKey a b = pairKey c d ↔ s(a, b) = s(c, d) := by
  have antisymm {p q : Planet} (le : p.index ≤ q.index) (ge : q.index ≤ p.index) : p = q :=
    Planet.index_injective (le_antisymm le ge)
  simp only [pairKey, Sym2.eq_iff]
  split_ifs <;> grind

theorem seenIn_concat (aspects : List Aspect) (aspect : Aspect) :
    seenIn (aspects ++ [aspect]) = (seenIn aspects).add aspect := List.foldl_concat ..

theorem lookup_eq_some_iff {aspects : List Aspect} (once : (aspects.map Aspect.pair).Nodup)
    {p q : Planet} {kind : AspectKind} :
    (seenIn aspects).lookup (pairKey p q) = some kind ↔ Linked aspects kind s(p, q) := by
  induction aspects using List.reverseRecOn with
  | nil => simp [seenIn, Seen.empty, Linked]
  | append_singleton aspects last ih =>
    rw [List.map_append, List.nodup_append] at once
    obtain ⟨once, -, fresh⟩ := once
    have linked : Linked (aspects ++ [last]) kind s(p, q) ↔
        Linked aspects kind s(p, q) ∨ s(p, q) = last.pair ∧ kind = last.kind := by
      simp [Linked, Aspect.edge]
    rw [seenIn_concat, linked, ← ih once]
    simp only [Seen.add, Function.update_apply, pairKey_eq_iff]
    split_ifs with same
    · have none_before : (seenIn aspects).lookup (pairKey p q) ≠ some kind := by
        rw [Ne, ih once]
        intro before
        obtain ⟨aspect, mem, edge⟩ := List.mem_map.1 before
        have pair_eq : aspect.pair = last.pair := (Prod.mk.inj edge).1.trans same
        exact fresh _ (List.mem_map_of_mem mem) _ (List.mem_singleton.2 rfl) pair_eq
      grind [Aspect.pair]
    · grind [Aspect.pair]

theorem mem_seePlanet {planets : List Planet} {p q : Planet} :
    q ∈ Seen.seePlanet planets p ↔ q ∈ planets ∨ q = p := by
  unfold Seen.seePlanet
  split_ifs <;> grind

theorem nodup_seePlanet {planets : List Planet} (nodup : planets.Nodup) (p : Planet) :
    (Seen.seePlanet planets p).Nodup := by
  unfold Seen.seePlanet
  split_ifs with mem
  · exact nodup
  · exact List.nodup_append.2 ⟨nodup, List.nodup_singleton p, by grind⟩

theorem mem_seenPlanets {aspects : List Aspect} {p : Planet} :
    p ∈ (seenIn aspects).seenPlanets ↔ ∃ aspect ∈ aspects, p ∈ aspect.pair := by
  induction aspects using List.reverseRecOn with
  | nil => simp [seenIn, Seen.empty]
  | append_singleton aspects last ih =>
    rw [seenIn_concat]
    simp only [Seen.add, mem_seePlanet, ih, List.mem_append, List.mem_singleton, or_assoc,
      or_and_right, exists_or, exists_eq_left, Aspect.pair, Sym2.mem_iff]

theorem nodup_seenPlanets (aspects : List Aspect) : (seenIn aspects).seenPlanets.Nodup := by
  induction aspects using List.reverseRecOn with
  | nil => exact List.nodup_nil
  | append_singleton aspects last ih =>
    rw [seenIn_concat]
    exact nodup_seePlanet (nodup_seePlanet ih _) _

/-! ## The patterns of three planets -/

/-- The three bodies of a pattern. -/
def Shape.bodies : Shape → Finset Planet
  | grandTrine bodies => bodies
  | tSquare apex opposition => insert apex opposition.toFinset

section Triple

variable {aspects : List Aspect} {p1 p2 p3 : Planet}

theorem Linked.ne (simple : IsSimple aspects) {kind : AspectKind} {p q : Planet}
    (linked : Linked aspects kind s(p, q)) : p ≠ q := by
  rintro rfl
  obtain ⟨aspect, mem, edge⟩ := List.mem_map.1 linked
  have loop : s(aspect.bodyA, aspect.bodyB) = s(p, p) := (Prod.mk.inj edge).1
  have distinct := simple.distinct aspect mem
  grind

theorem mem_tSquareOf {lookup : Planet × Planet → Option AspectKind} {oppPair : Planet × Planet}
    {apex : Planet} {sq1 sq2 : Option AspectKind} {pattern : ChartPattern} :
    pattern ∈ (tSquareOf lookup oppPair apex sq1 sq2).toList ↔
      pattern = .tSquare apex oppPair ∧
        lookup (pairKey oppPair.1 oppPair.2) = some .opposition ∧
        sq1 = some .square ∧ sq2 = some .square := by
  simp only [tSquareOf, Option.mem_toList, Option.ite_none_right_eq_some,
    Option.some.injEq]
  tauto

theorem mem_patternsOf (simple : IsSimple aspects) {pattern : ChartPattern} :
    pattern ∈ patternsOf (seenIn aspects).lookup p1 p2 p3 ↔
      (pattern = .grandTrine p1 p2 p3 ∧ Linked aspects .trine s(p1, p2) ∧
        Linked aspects .trine s(p2, p3) ∧ Linked aspects .trine s(p1, p3)) ∨
      (pattern = .tSquare p3 (p1, p2) ∧ Linked aspects .opposition s(p1, p2) ∧
        Linked aspects .square s(p1, p3) ∧ Linked aspects .square s(p2, p3)) ∨
      (pattern = .tSquare p2 (p1, p3) ∧ Linked aspects .opposition s(p1, p3) ∧
        Linked aspects .square s(p1, p2) ∧ Linked aspects .square s(p2, p3)) ∨
      (pattern = .tSquare p1 (p2, p3) ∧ Linked aspects .opposition s(p2, p3) ∧
        Linked aspects .square s(p1, p2) ∧ Linked aspects .square s(p1, p3)) := by
  simp only [← lookup_eq_some_iff simple.once, patternsOf]
  by_cases trines : (seenIn aspects).lookup (pairKey p1 p2) = some .trine ∧
    (seenIn aspects).lookup (pairKey p2 p3) = some .trine ∧
    (seenIn aspects).lookup (pairKey p1 p3) = some .trine
  · -- a trine is no opposition
    rw [if_pos trines]
    simp [trines]
  · rw [if_neg trines, or_iff_right fun found => trines found.2]
    simp only [List.mem_append, mem_tSquareOf, or_assoc]

theorem nodup_patternsOf (ne12 : p1 ≠ p2) (ne13 : p1 ≠ p3) (ne23 : p2 ≠ p3) :
    ((patternsOf (seenIn aspects).lookup p1 p2 p3).map ChartPattern.shape).Nodup := by
  unfold patternsOf tSquareOf
  dsimp only
  split_ifs <;> simp [ChartPattern.shape, ne12, ne13, ne23, ne12.symm, ne13.symm, ne23.symm]

/-- With one of three values taken away, the other two are left. -/
theorem pair_eq_of_insert_eq {α : Type*} [DecidableEq α] {a b c p q : α} (ap : a ≠ p)
    (aq : a ≠ q) (pq : p ≠ q) (same : ({a, p, q} : Finset α) = {a, b, c}) : s(p, q) = s(b, c) := by
  have p_mem : p ∈ ({a, b, c} : Finset α) := by simp [← same]
  have q_mem : q ∈ ({a, b, c} : Finset α) := by simp [← same]
  simp only [Finset.mem_insert, Finset.mem_singleton] at p_mem q_mem
  rw [Sym2.eq_iff]
  grind

/-- A grand trine of three planets. -/
theorem present_grandTrine_iff (ne12 : p1 ≠ p2) (ne13 : p1 ≠ p3) (ne23 : p2 ≠ p3)
    {bodies : Finset Planet} :
    (Shape.grandTrine bodies).Present aspects ∧ bodies = {p1, p2, p3} ↔
      Linked aspects .trine s(p1, p2) ∧ Linked aspects .trine s(p2, p3) ∧
        Linked aspects .trine s(p1, p3) ∧ bodies = {p1, p2, p3} := by
  constructor
  · rintro ⟨⟨-, trines⟩, rfl⟩
    exact ⟨trines _ (by simp) _ (by simp) ne12, trines _ (by simp) _ (by simp) ne23,
      trines _ (by simp) _ (by simp) ne13, rfl⟩
  · rintro ⟨t12, t23, t13, rfl⟩
    refine ⟨⟨Finset.card_eq_three.2 ⟨p1, p2, p3, ne12, ne13, ne23, rfl⟩, ?_⟩, rfl⟩
    intro p p_mem q q_mem ne
    simp only [Finset.mem_insert, Finset.mem_singleton] at p_mem q_mem
    grind [Sym2.eq_swap]

/-- A T-square with its apex among three planets. -/
theorem present_tSquare_iff (simple : IsSimple aspects) {a b c : Planet} {bodies : Finset Planet}
    (bodies_eq : bodies = {a, b, c}) {opposition : Sym2 Planet} :
    (Shape.tSquare a opposition).Present aspects ∧ insert a opposition.toFinset = bodies ↔
      Linked aspects .opposition s(b, c) ∧ Linked aspects .square s(a, b) ∧
        Linked aspects .square s(a, c) ∧ opposition = s(b, c) := by
  subst bodies_eq
  constructor
  · rintro ⟨⟨opposed, squares⟩, same⟩
    induction opposition with | _ p q =>
    simp only [Sym2.mem_iff, forall_eq_or_imp, forall_eq] at squares
    obtain ⟨sq1, sq2⟩ := squares
    have pair : s(p, q) = s(b, c) := by
      refine pair_eq_of_insert_eq (sq1.ne simple) (sq2.ne simple) (opposed.ne simple) ?_
      rw [← same, Sym2.toFinset_mk_eq]
    rw [← pair]
    refine ⟨opposed, ?_, ?_, rfl⟩ <;> grind
  · rintro ⟨opposed, sq1, sq2, rfl⟩
    refine ⟨⟨opposed, ?_⟩, by rw [Sym2.toFinset_mk_eq]⟩
    intro p mem
    rcases Sym2.mem_iff.1 mem with rfl | rfl
    · exact sq1
    · exact sq2

/-- Among three planets the search finds the patterns of these three. -/
theorem mem_shapesOf (simple : IsSimple aspects) (ne12 : p1 ≠ p2) (ne13 : p1 ≠ p3)
    (ne23 : p2 ≠ p3) {shape : Shape} :
    shape ∈ (patternsOf (seenIn aspects).lookup p1 p2 p3).map ChartPattern.shape ↔
      shape.Present aspects ∧ shape.bodies = {p1, p2, p3} := by
  simp only [List.mem_map, mem_patternsOf simple, or_and_right, exists_or, and_assoc,
    exists_eq_left, ChartPattern.shape]
  cases shape with
  | grandTrine bodies =>
    simp only [Shape.bodies, reduceCtorEq, and_false, or_false, Shape.grandTrine.injEq]
    rw [present_grandTrine_iff ne12 ne13 ne23, eq_comm]
  | tSquare apex opposition =>
    simp only [Shape.bodies, reduceCtorEq, and_false, false_or, Shape.tSquare.injEq]
    have turn : ({p1, p2, p3} : Finset Planet) = {p2, p1, p3} := Finset.insert_comm p1 p2 {p3}
    have turn' : ({p1, p2, p3} : Finset Planet) = {p3, p1, p2} := by grind
    constructor
    · rintro (⟨opposed, sq1, sq2, rfl, same⟩ | ⟨opposed, sq1, sq2, rfl, same⟩ |
        ⟨opposed, sq1, sq2, rfl, same⟩)
      · rw [Sym2.eq_swap] at sq1 sq2
        exact (present_tSquare_iff simple turn').2 ⟨opposed, sq1, sq2, same.symm⟩
      · rw [Sym2.eq_swap] at sq1
        exact (present_tSquare_iff simple turn).2 ⟨opposed, sq1, sq2, same.symm⟩
      · exact (present_tSquare_iff simple rfl).2 ⟨opposed, sq1, sq2, same.symm⟩
    · intro found
      have apex_mem : apex ∈ ({p1, p2, p3} : Finset Planet) := by simp [← found.2]
      simp only [Finset.mem_insert, Finset.mem_singleton] at apex_mem
      rcases apex_mem with rfl | rfl | rfl
      · obtain ⟨opposed, sq1, sq2, same⟩ := (present_tSquare_iff simple rfl).1 found
        exact .inr (.inr ⟨opposed, sq1, sq2, rfl, same.symm⟩)
      · obtain ⟨opposed, sq1, sq2, same⟩ := (present_tSquare_iff simple turn).1 found
        rw [Sym2.eq_swap] at sq1
        exact .inr (.inl ⟨opposed, sq1, sq2, rfl, same.symm⟩)
      · obtain ⟨opposed, sq1, sq2, same⟩ := (present_tSquare_iff simple turn').1 found
        rw [Sym2.eq_swap] at sq1 sq2
        exact .inl ⟨opposed, sq1, sq2, rfl, same.symm⟩

end Triple

/-! ## All patterns -/

variable {aspects : List Aspect}

theorem Linked.seen {kind : AspectKind} {pair : Sym2 Planet} (linked : Linked aspects kind pair)
    {p : Planet} (mem : p ∈ pair) : p ∈ (seenIn aspects).seenPlanets := by
  obtain ⟨aspect, here, edge⟩ := List.mem_map.1 linked
  obtain ⟨rfl, -⟩ := Prod.mk.inj edge
  exact mem_seenPlanets.2 ⟨aspect, here, mem⟩

/-- The bodies of a pattern that is present are three planets with an aspect. -/
theorem Shape.Present.bodies_mem (simple : IsSimple aspects) {shape : Shape}
    (present : shape.Present aspects) :
    shape.bodies ∈ (triples (seenIn aspects).seenPlanets).map tripleSet := by
  rw [mem_tripleSets (nodup_seenPlanets aspects)]
  cases shape with
  | grandTrine bodies =>
    obtain ⟨card, trines⟩ := present
    refine ⟨card, fun p mem => ?_⟩
    obtain ⟨q, q_mem, ne⟩ := Finset.exists_mem_ne (by omega : 1 < bodies.card) p
    exact (trines p mem q q_mem ne.symm).seen (Sym2.mem_mk_left p q)
  | tSquare apex opposition =>
    obtain ⟨opposed, squares⟩ := present
    induction opposition with | _ p q =>
    have sq1 := squares p (Sym2.mem_mk_left p q)
    have sq2 := squares q (Sym2.mem_mk_right p q)
    rw [Shape.bodies, Sym2.toFinset_mk_eq]
    refine ⟨Finset.card_eq_three.2
      ⟨apex, p, q, sq1.ne simple, sq2.ne simple, opposed.ne simple, rfl⟩, fun r mem => ?_⟩
    simp only [Finset.mem_insert, Finset.mem_singleton] at mem
    rcases mem with rfl | rfl | rfl
    · exact sq1.seen (Sym2.mem_mk_left r p)
    · exact opposed.seen (Sym2.mem_mk_left r q)
    · exact opposed.seen (Sym2.mem_mk_right p r)

/-- The patterns found, in no order of their bodies. -/
def shapesIn (aspects : List Aspect) : List Shape :=
  (detectPatterns aspects).map ChartPattern.shape

theorem mem_shapesIn (simple : IsSimple aspects) {shape : Shape} :
    shape ∈ shapesIn aspects ↔ shape.Present aspects := by
  have nodup := nodup_seenPlanets aspects
  rw [shapesIn, detectPatterns, List.map_flatMap, List.mem_flatMap]
  constructor
  · rintro ⟨⟨p1, p2, p3⟩, met, found⟩
    obtain ⟨ne12, ne13, ne23⟩ := ne_of_mem_triples nodup met
    exact ((mem_shapesOf simple ne12 ne13 ne23).1 found).1
  · intro present
    obtain ⟨⟨p1, p2, p3⟩, met, same⟩ := List.mem_map.1 (present.bodies_mem simple)
    obtain ⟨ne12, ne13, ne23⟩ := ne_of_mem_triples nodup met
    exact ⟨(p1, p2, p3), met, (mem_shapesOf simple ne12 ne13 ne23).2 ⟨present, same.symm⟩⟩

theorem nodup_shapesIn (simple : IsSimple aspects) : (shapesIn aspects).Nodup := by
  have nodup := nodup_seenPlanets aspects
  rw [shapesIn, detectPatterns, List.map_flatMap, List.nodup_flatMap]
  constructor
  · rintro ⟨p1, p2, p3⟩ met
    obtain ⟨ne12, ne13, ne23⟩ := ne_of_mem_triples nodup met
    exact nodup_patternsOf ne12 ne13 ne23
  · -- a pattern names its triple
    have sets := List.pairwise_map.1 (nodup_tripleSets nodup)
    refine sets.imp_of_mem ?_
    rintro ⟨p1, p2, p3⟩ ⟨q1, q2, q3⟩ met met' ne shape found found'
    obtain ⟨ne12, ne13, ne23⟩ := ne_of_mem_triples nodup met
    obtain ⟨ne12', ne13', ne23'⟩ := ne_of_mem_triples nodup met'
    have bodies := ((mem_shapesOf simple ne12 ne13 ne23).1 found).2
    have bodies' := ((mem_shapesOf simple ne12' ne13' ne23').1 found').2
    exact ne (bodies.symm.trans bodies')

section SameGraph

variable {aspects' : List Aspect}
  (same : (aspects'.map Aspect.edge).Perm (aspects.map Aspect.edge))

include same

theorem IsSimple.of_perm (simple : IsSimple aspects) : IsSimple aspects' where
  distinct aspect mem := by
    have edge_mem := same.mem_iff.1 (List.mem_map_of_mem mem)
    obtain ⟨aspect', mem', edge⟩ := List.mem_map.1 edge_mem
    have pair_eq : s(aspect'.bodyA, aspect'.bodyB) = s(aspect.bodyA, aspect.bodyB) :=
      (Prod.mk.inj edge).1
    have distinct := simple.distinct aspect' mem'
    grind
  once := by
    have pairs := same.map Prod.fst
    rw [List.map_map, List.map_map] at pairs
    exact pairs.nodup_iff.2 simple.once

theorem linked_iff_of_perm {kind : AspectKind} {pair : Sym2 Planet} :
    Linked aspects' kind pair ↔ Linked aspects kind pair := same.mem_iff

theorem present_iff_of_perm (shape : Shape) : shape.Present aspects' ↔ shape.Present aspects := by
  cases shape <;> simp only [Shape.Present, linked_iff_of_perm same]

end SameGraph

/-- **The search finds the patterns of the aspect graph, each once.** Neither the order of the
aspects nor the order of the bodies of one of them counts. -/
theorem detectPatterns_exact (aspects : List Aspect) (simple : IsSimple aspects) :
    (∀ shape, shape ∈ shapesIn aspects ↔ shape.Present aspects) ∧ (shapesIn aspects).Nodup ∧
      ∀ aspects' : List Aspect, (aspects'.map Aspect.edge).Perm (aspects.map Aspect.edge) →
        (shapesIn aspects').Perm (shapesIn aspects) := by
  refine ⟨fun shape => mem_shapesIn simple, nodup_shapesIn simple, fun aspects' same => ?_⟩
  have simple' := simple.of_perm same
  rw [List.perm_ext_iff_of_nodup (nodup_shapesIn simple') (nodup_shapesIn simple)]
  intro shape
  rw [mem_shapesIn simple', mem_shapesIn simple, present_iff_of_perm same]

/-- Three bodies, each trine the other two. -/
def threeTrines : List Aspect :=
  [⟨.sun, .moon, .trine, 1⟩, ⟨.jupiter, .moon, .trine, 2⟩, ⟨.sun, .jupiter, .trine, 3⟩]

theorem detectPatterns_exact_threeTrines :
    (∀ shape, shape ∈ shapesIn threeTrines ↔ shape.Present threeTrines) ∧
      (shapesIn threeTrines).Nodup ∧
      ∀ aspects' : List Aspect, (aspects'.map Aspect.edge).Perm (threeTrines.map Aspect.edge) →
        (shapesIn aspects').Perm (shapesIn threeTrines) :=
  detectPatterns_exact threeTrines ⟨by decide, by decide⟩

/-! ## Charts -/

/-- The aspects of one body in the first loop, under the pairs of bodies that it meets. -/
theorem map_filterMap_sublist {positions : PlanetPositions} (a : Planet) (planets : List Planet) :
    ((planets.filterMap fun b => (aspectBetween (positions a) (positions b)).map fun found =>
      (⟨a, b, found.1, found.2⟩ : Aspect)).map fun aspect => (aspect.bodyA, aspect.bodyB)).Sublist
        (planets.map fun b => (a, b)) := by
  induction planets with
  | nil => exact .slnil
  | cons b planets ih =>
    cases found : aspectBetween (positions a) (positions b) with
    | none => simpa [found] using ih.cons (a, b)
    | some aspect => simpa [found] using ih

theorem computeAspectsFrom_sublist (positions : PlanetPositions) (planets : List Planet) :
    ((computeAspectsFrom positions planets).map fun aspect => (aspect.bodyA, aspect.bodyB)).Sublist
      (pairs planets) := by
  induction planets with
  | nil => exact .slnil
  | cons a planets ih =>
    rw [computeAspectsFrom, List.map_append, pairs]
    exact (map_filterMap_sublist a planets).append ih

/-- The aspects of a chart are between distinct bodies, and at most one for every two of them. -/
theorem isSimple_computeAspects (positions : PlanetPositions) :
    IsSimple (computeAspects positions) := by
  have nodup : Planet.all.Nodup := by decide
  have sub := computeAspectsFrom_sublist positions Planet.all
  constructor
  · intro aspect mem
    have pair_mem := sub.subset (List.mem_map_of_mem mem)
    have distinct := nodup.sublist (mem_pairs.1 pair_mem)
    simpa using distinct
  · have pairs_sub := sub.map fun t => s(t.1, t.2)
    rw [List.map_map] at pairs_sub
    exact (nodup_unorderedPairs nodup).sublist pairs_sub

end Zodia.Core
