import Mathlib.Data.Finset.Card
import Mathlib.Data.List.Nodup
import Mathlib.Data.Sym.Sym2

/-!
# Triples of a list

Three nested loops over a list, each starting behind the one around it. Among distinct values
they meet every set of three of them once, whatever the order of the list is.

## Main definitions

* `pairs`, `triples` — the values that the loops meet.
* `tripleSet` — the values of a triple in no order.

## Main results

* `mem_tripleSets` — the sets of three values are met.
* `nodup_tripleSets` — none of them is met twice.
-/

namespace Zodia.Lib

open List

variable {α : Type*} {l t t' : List α} {x y z : α}

/-- The pairs of values of a list, the earlier one first. -/
def pairs : List α → List (α × α)
  | [] => []
  | x :: l => l.map (fun y => (x, y)) ++ pairs l

/-- The triples of values of a list, in its order. -/
def triples : List α → List (α × α × α)
  | [] => []
  | x :: l => (pairs l).map (fun t => (x, t)) ++ triples l

theorem mem_pairs : (x, y) ∈ pairs l ↔ [x, y] <+ l := by
  induction l with
  | nil => simp [pairs]
  | cons a l ih => grind [pairs]

/-- Two distinct values of a list are a pair of it in one order. -/
theorem mem_pairs_or (hx : x ∈ l) (hy : y ∈ l) (ne : x ≠ y) :
    (x, y) ∈ pairs l ∨ (y, x) ∈ pairs l := by
  induction l with
  | nil => cases hx
  | cons a l ih => grind [pairs]

theorem mem_triples : (x, y, z) ∈ triples l ↔ [x, y, z] <+ l := by
  induction l with
  | nil => simp [triples]
  | cons a l ih => grind [triples, mem_pairs]

/-- The values of a triple of a list without repetitions are distinct. -/
theorem ne_of_mem_triples (nodup : l.Nodup) (mem : (x, y, z) ∈ triples l) :
    x ≠ y ∧ x ≠ z ∧ y ≠ z := by
  have distinct := nodup.sublist (mem_triples.1 mem)
  grind

theorem nodup_pairs (nodup : l.Nodup) : (pairs l).Nodup := by
  induction l with
  | nil => exact nodup_nil
  | cons a l ih =>
    obtain ⟨fresh, rest⟩ := nodup_cons.1 nodup
    refine nodup_append.2 ⟨rest.map (Prod.mk_right_injective a), ih rest, ?_⟩
    rintro - mem ⟨x, y⟩ later rfl
    obtain ⟨y', -, same⟩ := mem_map.1 mem
    have a_mem : x ∈ l := (mem_pairs.1 later).subset mem_cons_self
    exact fresh ((Prod.mk.inj same).1 ▸ a_mem)

theorem nodup_triples (nodup : l.Nodup) : (triples l).Nodup := by
  induction l with
  | nil => exact nodup_nil
  | cons a l ih =>
    obtain ⟨fresh, rest⟩ := nodup_cons.1 nodup
    refine nodup_append.2 ⟨(nodup_pairs rest).map (Prod.mk_right_injective a), ih rest, ?_⟩
    rintro - mem ⟨x, y, z⟩ later rfl
    obtain ⟨t, -, same⟩ := mem_map.1 mem
    have a_mem : x ∈ l := (mem_triples.1 later).subset mem_cons_self
    exact fresh ((Prod.mk.inj same).1 ▸ a_mem)

variable [DecidableEq α]

/-- In a list without repetitions, a sublist is fixed by its values. -/
theorem filter_eq_of_sublist (nodup : l.Nodup) (sub : t <+ l) : l.filter (· ∈ t) = t := by
  induction sub with
  | slnil => rfl
  | @cons t l a sub ih =>
    obtain ⟨fresh, rest⟩ := nodup_cons.1 nodup
    have out : a ∉ t := fun mem => fresh (sub.subset mem)
    rw [filter_cons_of_neg (by simpa using out), ih rest]
  | @cons_cons t l a sub ih =>
    obtain ⟨fresh, rest⟩ := nodup_cons.1 nodup
    have same : l.filter (· ∈ a :: t) = l.filter (· ∈ t) := by
      refine filter_congr fun x mem => ?_
      have ne : x ≠ a := fun same => fresh (same ▸ mem)
      simp [ne]
    rw [filter_cons_of_pos (by simp), same, ih rest]

/-- No two values are met in both orders. -/
theorem nodup_unorderedPairs (nodup : l.Nodup) :
    ((pairs l).map fun t => s(t.1, t.2)).Nodup := by
  refine (nodup_pairs nodup).map_on ?_
  rintro ⟨x, y⟩ mem ⟨x', y'⟩ mem' same
  have first := filter_eq_of_sublist nodup (mem_pairs.1 mem)
  have second := filter_eq_of_sublist nodup (mem_pairs.1 mem')
  have values (v : α) : v ∈ [x, y] ↔ v ∈ [x', y'] := by
    have := congrArg (v ∈ ·) same
    simpa using this
  simp only [values, second] at first
  grind

/-- The values of a triple. -/
def tripleSet (t : α × α × α) : Finset α := {t.1, t.2.1, t.2.2}

theorem nodup_tripleSets (nodup : l.Nodup) : ((triples l).map tripleSet).Nodup := by
  refine (nodup_triples nodup).map_on ?_
  rintro ⟨x, y, z⟩ mem ⟨x', y', z'⟩ mem' same
  have first := filter_eq_of_sublist nodup (mem_triples.1 mem)
  have second := filter_eq_of_sublist nodup (mem_triples.1 mem')
  have values (v : α) : v ∈ [x, y, z] ↔ v ∈ [x', y', z'] := by
    have := congrArg (v ∈ ·) same
    simpa [tripleSet] using this
  simp only [values, second] at first
  grind

theorem mem_tripleSets (nodup : l.Nodup) {s : Finset α} :
    s ∈ (triples l).map tripleSet ↔ s.card = 3 ∧ ∀ x ∈ s, x ∈ l := by
  constructor
  · intro mem
    obtain ⟨⟨x, y, z⟩, met, rfl⟩ := mem_map.1 mem
    have sub := mem_triples.1 met
    obtain ⟨xy, xz, yz⟩ := ne_of_mem_triples nodup met
    refine ⟨?_, fun v here => sub.subset (by simpa [tripleSet] using here)⟩
    exact Finset.card_eq_three.2 ⟨x, y, z, xy, xz, yz, rfl⟩
  · rintro ⟨card, inside⟩
    -- the values in the order of the list
    have sub : l.filter (· ∈ s) <+ l := filter_sublist
    have values : (l.filter (· ∈ s)).toFinset = s := by
      ext x
      simpa using inside x
    have length : (l.filter (· ∈ s)).length = 3 := by
      rw [← toFinset_card_of_nodup (nodup.sublist sub), values, card]
    obtain ⟨x, y, z, eq⟩ := length_eq_three.1 length
    rw [eq] at sub values
    refine mem_map.2 ⟨(x, y, z), mem_triples.2 sub, ?_⟩
    rw [← values]
    simp [tripleSet]

end Zodia.Lib
