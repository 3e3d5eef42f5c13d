import Mathlib.Algebra.BigOperators.Group.List.Basic
import Mathlib.Algebra.Order.Ring.Nat
import Mathlib.Data.List.Nodup
import Mathlib.Data.List.Sort
import Zodia.Lib.Table

/-!
# Grouping by a key

Values are put under their keys into a hash map, the map is read in whatever order it has, small
groups are dropped and the rest is sorted by key. What comes out does not depend on the order of
the map: each key has the values that have it, in the order in which they were put in.

## Main definitions

* `Groups`, `groupBy` — the map and how it is filled.
* `IterOrder`, `sortedGroups` — how it is read.

## Main results

* `mem_groupBy` — the groups of the map.
* `sortedGroups_groupBy` — what is read from it.
* `sum_length_groupOf` — the groups of some keys are as large as what has one of the keys.
-/

namespace Zodia.Lib

variable {α κ : Type*} [DecidableEq κ]

/-- A hash map from keys to the values put under them. -/
abbrev Groups (κ α : Type*) := Table fun g : κ × List α => g.1

/-- Put a value at the end of its group. -/
def Groups.push (groups : Groups κ α) (k : κ) (x : α) : Groups κ α :=
  groups.upsert (k, ((groups.find? k).map Prod.snd).getD [] ++ [x])

/-- Put each value under its key, if it has one. -/
def groupBy (key : α → Option κ) (xs : List α) : Groups κ α :=
  xs.foldl (fun groups x =>
    match key x with
    | none => groups
    | some k => groups.push k x) Table.empty

/-- The order in which a hash map yields its entries. -/
structure IterOrder (β : Type*) where
  arrange : List β → List β
  perm : ∀ entries, (arrange entries).Perm entries

/-- The groups of at least `size` values, sorted by key. -/
def sortedGroups [LinearOrder κ] (order : IterOrder (κ × List α)) (size : ℕ)
    (groups : Groups κ α) : List (κ × List α) :=
  ((order.arrange groups.rows).filter fun g => size ≤ g.2.length).insertionSort
    fun g g' => g.1 ≤ g'.1

variable {key : α → Option κ} {xs : List α} {k : κ}

/-- The values of a key. -/
def groupOf (key : α → Option κ) (xs : List α) (k : κ) : List α := xs.filter fun x => key x = some k

theorem groupBy_append_singleton (key : α → Option κ) (xs : List α) (x : α) :
    groupBy key (xs ++ [x]) =
      match key x with
      | none => groupBy key xs
      | some k => (groupBy key xs).push k x := by
  rw [groupBy, List.foldl_append]
  rfl

theorem groupOf_append_singleton (key : α → Option κ) (xs : List α) (x : α) (k : κ) :
    groupOf key (xs ++ [x]) k = groupOf key xs k ++ if key x = some k then [x] else [] := by
  by_cases own : key x = some k <;> simp [groupOf, own]

/-- A key has the group that was put under it, if anything was. -/
theorem find?_groupBy (key : α → Option κ) (xs : List α) (k : κ) :
    (groupBy key xs).find? k =
      if groupOf key xs k = [] then none else some (k, groupOf key xs k) := by
  induction xs using List.reverseRecOn with
  | nil => rfl
  | append_singleton xs x ih =>
    rw [groupBy_append_singleton, groupOf_append_singleton]
    cases own : key x with
    | none => simpa using ih
    | some k' =>
      simp only [Groups.push, Table.find?_upsert]
      by_cases same : k' = k
      · subst same
        rw [ih]
        by_cases first : groupOf key xs k' = [] <;> simp [first]
      · simpa [same] using ih

theorem mem_groupBy {ys : List α} :
    (k, ys) ∈ groupBy key xs ↔ ys = groupOf key xs k ∧ ys ≠ [] := by
  have found := find?_groupBy key xs k
  constructor
  · intro mem
    rw [Table.find?_eq_some.2 ⟨mem, rfl⟩] at found
    split_ifs at found with none
    obtain ⟨-, rfl⟩ := Prod.mk.inj (Option.some.inj found)
    exact ⟨rfl, none⟩
  · rintro ⟨rfl, some⟩
    rw [if_neg some] at found
    exact (Table.find?_eq_some.1 found).1

/-- **What is read from the map does not depend on its order.** -/
theorem sortedGroups_groupBy [LinearOrder κ] (order : IterOrder (κ × List α)) {size : ℕ}
    (pos : 0 < size) {keys : List κ} (sorted : keys.Pairwise (· < ·))
    (all : ∀ x ∈ xs, ∀ k ∈ key x, k ∈ keys) :
    sortedGroups order size (groupBy key xs) =
      (keys.map fun k => (k, groupOf key xs k)).filter fun g => size ≤ g.2.length := by
  have strict : (((keys.map fun k => (k, groupOf key xs k)).filter fun g =>
      size ≤ g.2.length)).Pairwise fun g g' => g.1 < g'.1 := by
    refine List.Pairwise.filter _ ?_
    rw [List.pairwise_map]
    exact sorted
  have rows := (order.perm (groupBy key xs).rows).filter fun g => decide (size ≤ g.2.length)
  have perm : (sortedGroups order size (groupBy key xs)).Perm
      ((keys.map fun k => (k, groupOf key xs k)).filter fun g => size ≤ g.2.length) := by
    refine ((List.perm_insertionSort _ _).trans rows).trans ?_
    refine (List.perm_ext_iff_of_nodup ((Table.nodup_rows _).filter _)
      (strict.imp fun {g g'} lt same => (same ▸ lt).ne rfl)).2 fun g => ?_
    obtain ⟨k, ys⟩ := g
    rw [List.mem_filter, List.mem_filter, Table.mem_rows, mem_groupBy, List.mem_map]
    constructor
    · rintro ⟨⟨rfl, some⟩, large⟩
      obtain ⟨x, mem⟩ := List.exists_mem_of_ne_nil _ some
      obtain ⟨mem, own⟩ := List.mem_filter.1 mem
      exact ⟨⟨k, all x mem k (of_decide_eq_true own), rfl⟩, large⟩
    · rintro ⟨⟨k', -, same⟩, large⟩
      obtain ⟨rfl, rfl⟩ := Prod.mk.inj same
      refine ⟨⟨rfl, fun none => ?_⟩, large⟩
      simp [none] at large
      omega
  refine perm.eq_of_pairwise (fun g g' mem mem' le ge => ?_)
    (List.pairwise_insertionSort (fun g g' : κ × List α => g.1 ≤ g'.1) _)
    (strict.imp fun lt => lt.le)
  have mem := perm.subset mem
  obtain ⟨k, -, rfl⟩ := List.mem_map.1 (List.mem_filter.1 mem).1
  obtain ⟨k', -, rfl⟩ := List.mem_map.1 (List.mem_filter.1 mem').1
  dsimp only at le ge
  rw [le_antisymm le ge]

/-- The groups of some keys are together as large as what has one of these keys. -/
theorem sum_length_groupOf (key : α → Option κ) (xs : List α) {keys : List κ}
    (nodup : keys.Nodup) :
    (keys.map fun k => (groupOf key xs k).length).sum =
      xs.countP fun x => keys.any fun k => key x = some k := by
  induction keys with
  | nil => simp
  | cons k keys ih =>
    obtain ⟨fresh, rest⟩ := List.nodup_cons.1 nodup
    have split (xs : List α) :
        xs.countP (fun x => (k :: keys).any fun k' => key x = some k') =
          xs.countP (fun x => key x = some k) +
            xs.countP fun x => keys.any fun k' => key x = some k' := by
      induction xs with
      | nil => rfl
      | cons x xs ih =>
        rw [List.countP_cons, List.countP_cons, List.countP_cons, ih]
        by_cases own : key x = some k
        · simp [own, fresh]
          omega
        · simp [own]
          omega
    rw [List.map_cons, List.sum_cons, ih rest, groupOf, ← List.countP_eq_length_filter, split]

end Zodia.Lib
