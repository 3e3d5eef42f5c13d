import Mathlib.Algebra.Group.Fin.Basic
import Mathlib.Order.Fin.Basic
import Mathlib.Order.Interval.Set.Basic
import Mathlib.Order.Preorder.Finite

/-!
# Points around a circle

A linear order whose end is taken to join its start, and a list of points on it. The arcs from
each point to the next one cover the circle once, where the list goes around once.

## Main definitions

* `arc` — the half-open arc from one point to another.
* `OnceAround` — the list goes around the circle once and never back.

## Main results

* `OnceAround.existsUnique_mem_arc` — every value lies in just one of the arcs.
-/

namespace Zodia.Circle

variable {α : Type*} [LinearOrder α] {a b x : α}

/-- The half-open arc from `a` up to `b`, through the end of the order if `b` is below `a`. -/
def arc (a b : α) : Set α := if a ≤ b then Set.Ico a b else Set.Ici a ∪ Set.Iio b

theorem mem_arc_of_le (le : a ≤ b) : x ∈ arc a b ↔ a ≤ x ∧ x < b := by
  rw [arc, if_pos le, Set.mem_Ico]

theorem mem_arc_of_lt (lt : b < a) : x ∈ arc a b ↔ a ≤ x ∨ x < b := by
  rw [arc, if_neg (not_le.2 lt), Set.mem_union, Set.mem_Ici, Set.mem_Iio]

variable {n : ℕ}

/-- Read from one of its points on, the list never goes back. It has more than one value. -/
structure OnceAround (c : Fin (n + 1) → α) : Prop where
  increases : ∃ s, Monotone fun k => c (s + k)
  moves : ∃ i j, c i ≠ c j

section Increasing

variable {d : Fin (n + 1) → α} (mono : Monotone d)

include mono

theorem exists_mem_arc (moves : d 0 < d (Fin.last n)) (x : α) :
    ∃ k, x ∈ arc (d k) (d (k + 1)) := by
  by_cases some : ∃ k, d k ≤ x
  · -- the last point that is not past the value
    obtain ⟨k, below, greatest⟩ := (Set.toFinite {k | d k ≤ x}).exists_maximal some
    refine ⟨k, ?_⟩
    rcases (Fin.le_last k).lt_or_eq with lt | rfl
    · have next : k < k + 1 := Fin.lt_add_one_iff.2 lt
      have past : x < d (k + 1) := by
        by_contra h
        exact absurd (greatest (not_lt.1 h) next.le) (not_le.2 next)
      exact (mem_arc_of_le (mono next.le)).2 ⟨below, past⟩
    · rw [Fin.last_add_one, mem_arc_of_lt moves]
      exact .inl below
  · refine ⟨Fin.last n, ?_⟩
    rw [Fin.last_add_one, mem_arc_of_lt moves]
    exact .inr (not_le.1 fun le => some ⟨0, le⟩)

theorem not_mem_arc_of_lt (moves : d 0 < d (Fin.last n)) {k k' : Fin (n + 1)} (lt : k < k')
    (mem : x ∈ arc (d k) (d (k + 1))) : x ∉ arc (d k') (d (k' + 1)) := by
  have next : k < k + 1 := Fin.lt_add_one_iff.2 (lt.trans_le (Fin.le_last k'))
  obtain ⟨above, below⟩ := (mem_arc_of_le (mono next.le)).1 mem
  have past : x < d k' := below.trans_le (mono (Fin.add_one_le_of_lt lt))
  intro mem'
  rcases (Fin.le_last k').lt_or_eq with lt' | rfl
  · have next' : k' < k' + 1 := Fin.lt_add_one_iff.2 lt'
    exact absurd ((mem_arc_of_le (mono next'.le)).1 mem').1 (not_le.2 past)
  · rw [Fin.last_add_one, mem_arc_of_lt moves] at mem'
    rcases mem' with le | start
    · exact absurd le (not_le.2 past)
    · exact absurd (start.trans_le (mono (Fin.zero_le k))) (not_lt.2 above)

end Increasing

/-- **The arcs of a list that goes around once cover the circle once.** -/
theorem OnceAround.existsUnique_mem_arc {c : Fin (n + 1) → α} (once : OnceAround c) (x : α) :
    ∃! i, x ∈ arc (c i) (c (i + 1)) := by
  obtain ⟨s, mono⟩ := once.increases
  have moves : c (s + 0) < c (s + Fin.last n) := by
    refine lt_of_le_of_ne (mono (Fin.zero_le _)) fun same => ?_
    have all (i : Fin (n + 1)) : c i = c (s + 0) := by
      have low : c (s + 0) ≤ c (s + (i - s)) := mono (Fin.zero_le _)
      have high : c (s + (i - s)) ≤ c (s + Fin.last n) := mono (Fin.le_last _)
      rw [add_sub_cancel] at low high
      exact le_antisymm (high.trans same.ge) low
    obtain ⟨i, j, differ⟩ := once.moves
    exact differ ((all i).trans (all j).symm)
  have turned (i : Fin (n + 1)) : arc (c i) (c (i + 1)) =
      arc (c (s + (i - s))) (c (s + (i - s + 1))) := by
    rw [← add_assoc, add_sub_cancel]
  obtain ⟨k, mem⟩ := exists_mem_arc mono moves x
  refine ⟨s + k, by simpa only [add_assoc] using mem, fun i mem' => ?_⟩
  simp only [turned i] at mem'
  have same : i - s = k := by
    rcases lt_trichotomy (i - s) k with lt | eq | lt
    · exact absurd mem (not_mem_arc_of_lt mono moves lt mem')
    · exact eq
    · exact absurd mem' (not_mem_arc_of_lt mono moves lt mem)
  rw [← same, add_sub_cancel]

end Zodia.Circle
