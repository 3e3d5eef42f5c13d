import Mathlib.Data.List.MinMax
import Mathlib.Data.List.Sort

/-!
# Newest first

Lists in the order of a time that every entry carries, the newest entry at the front. Sorting is
stable, so the first match in a sorted list is the newest match, and the earliest in the original
list among the matches that are as new.

## Main definitions

* `NewestFirst` — no entry is newer than one before it.

## Main results

* `find?_insertionSort` — the first match in the sorted list is the newest match.
* `argmax_filter_and_iff` — when a second condition does not change which match is the newest.
-/

namespace Zodia.Lib

variable {α β : Type*} [LinearOrder β] (ts : α → β)

/-- No entry is newer than one before it. -/
def NewestFirst (l : List α) : Prop := l.Pairwise fun a b => ts b ≤ ts a

variable {ts}

theorem NewestFirst.sublist {l l' : List α} (h : NewestFirst ts l') (sub : l.Sublist l') :
    NewestFirst ts l := List.Pairwise.sublist sub h

/-- An entry between newer and older ones. -/
theorem newestFirst_append_cons {l l' : List α} {x : α} :
    NewestFirst ts (l ++ x :: l') ↔
      NewestFirst ts (l ++ l') ∧ (∀ y ∈ l, ts x ≤ ts y) ∧ ∀ y ∈ l', ts y ≤ ts x := by
  simp only [NewestFirst, List.pairwise_append, List.pairwise_cons, List.mem_cons]
  constructor
  · rintro ⟨left, ⟨below, right⟩, cross⟩
    exact ⟨⟨left, right, fun a ha b hb => cross a ha b (.inr hb)⟩,
      fun y hy => cross y hy x (.inl rfl), below⟩
  · rintro ⟨⟨left, right, cross⟩, above, below⟩
    refine ⟨left, ⟨below, right⟩, fun a ha b => ?_⟩
    rintro (rfl | hb)
    · exact above a ha
    · exact cross a ha b hb

variable (ts)

theorem newestFirst_insertionSort (l : List α) :
    NewestFirst ts (l.insertionSort fun a b => ts b ≤ ts a) := by
  have total : Std.Total fun a b : α => ts b ≤ ts a := ⟨fun a b => le_total (ts b) (ts a)⟩
  have trans : IsTrans α fun a b => ts b ≤ ts a := ⟨fun _ _ _ ab bc => bc.trans ab⟩
  exact List.pairwise_insertionSort _ l

/-- What an insertion does to the first match. -/
theorem find?_orderedInsert {l : List α} (sorted : NewestFirst ts l) (p : α → Bool) (x : α) :
    (l.orderedInsert (fun a b => ts b ≤ ts a) x).find? p =
      if p x then
        match l.find? p with
        | none => some x
        | some y => if ts x < ts y then some y else some x
      else l.find? p := by
  induction l with
  | nil => cases matches' : p x <;> simp [matches']
  | cons y l ih =>
    obtain ⟨below, sorted⟩ := List.pairwise_cons.1 sorted
    rw [List.orderedInsert_cons]
    split_ifs with older matches' matches'
    · rw [List.find?_cons_of_pos matches']
      cases found : (y :: l).find? p with
      | none => rfl
      | some z =>
        have le : ts z ≤ ts x := by
          rcases List.mem_cons.1 (List.mem_of_find?_eq_some found) with rfl | mem
          · exact older
          · exact (below z mem).trans older
        exact (if_neg (not_lt.2 le)).symm
    · rw [List.find?_cons_of_neg matches']
    · rw [List.find?_cons, List.find?_cons]
      cases p y with
      | true => exact (if_pos (not_le.1 older)).symm
      | false => simp only [ih sorted, if_pos matches']
    · rw [List.find?_cons, List.find?_cons]
      cases p y with
      | true => rfl
      | false => simp only [ih sorted, if_neg matches']

/-- **The first match in the sorted list is the newest one.** -/
theorem find?_insertionSort (p : α → Bool) (l : List α) :
    (l.insertionSort fun a b => ts b ≤ ts a).find? p = (l.filter p).argmax ts := by
  induction l with
  | nil => rfl
  | cons x l ih =>
    rw [List.insertionSort_cons, find?_orderedInsert ts (newestFirst_insertionSort ts l), ih,
      List.filter_cons]
    split_ifs with matches'
    · rw [List.argmax_cons]
      cases (l.filter p).argmax ts <;> rfl
    · rfl

theorem NewestFirst.find? {l : List α} (sorted : NewestFirst ts l) (p : α → Bool) :
    l.find? p = (l.filter p).argmax ts := by
  rw [← find?_insertionSort, List.Pairwise.insertionSort_eq sorted]

/-- Sorting does not change which match is the newest. -/
theorem argmax_filter_insertionSort (p : α → Bool) (l : List α) :
    ((l.insertionSort fun a b => ts b ≤ ts a).filter p).argmax ts = (l.filter p).argmax ts := by
  rw [← (newestFirst_insertionSort ts l).find?, find?_insertionSort]

/-- The first entry is the newest exactly if none is newer. -/
theorem argmax_cons_eq_some_iff (x : α) (l : List α) :
    (x :: l).argmax ts = some x ↔ ∀ y ∈ l, ts y ≤ ts x := by
  rw [List.argmax_cons]
  cases newest : l.argmax ts with
  | none =>
    rw [List.argmax_eq_none] at newest
    simp [newest]
  | some z =>
    have upper : ∀ y ∈ l, ts y ≤ ts z := fun y mem => List.le_of_mem_argmax mem newest
    dsimp only
    split_ifs with lt
    · refine iff_of_false ?_ fun below => ?_
      · rintro ⟨⟩
        exact lt_irrefl _ lt
      · exact absurd lt (not_lt.2 (below z (List.argmax_mem newest)))
    · exact iff_of_true rfl fun y mem => (upper y mem).trans (not_lt.1 lt)

/-- A second condition that the newest match meets leaves it the newest. -/
theorem argmax_filter_and_of_mem {p q : α → Bool} {l : List α} {n : α}
    (newest : (l.filter q).argmax ts = some n) (meets : p n = true) :
    (l.filter fun x => p x && q x).argmax ts = some n := by
  rw [← find?_insertionSort] at newest ⊢
  obtain ⟨match_, before, after, split, none⟩ := List.find?_eq_some_iff_append.1 newest
  refine List.find?_eq_some_iff_append.2 ⟨?_, before, after, split, fun x mem => ?_⟩
  · rw [meets, match_, Bool.and_true]
  · have no : q x = false := by simpa using none x mem
    rw [no, Bool.and_false, Bool.not_false]

/-- The newest match of two conditions is the newest match of the second, if that meets the first,
exactly if it meets the first whenever any match of the second does. -/
theorem argmax_filter_and_iff {p q : α → Bool} {l : List α} :
    (l.filter fun x => p x && q x).argmax ts = ((l.filter q).argmax ts).filter p ↔
      ∀ n, (l.filter q).argmax ts = some n → ∀ x ∈ l, q x = true → p x = true → p n = true := by
  cases newest : (l.filter q).argmax ts with
  | none =>
    rw [List.argmax_eq_none, List.filter_eq_nil_iff] at newest
    refine iff_of_true ?_ (fun n found => by cases found)
    rw [Option.filter_none, List.argmax_eq_none, List.filter_eq_nil_iff]
    intro x mem both
    exact newest x mem (Bool.and_eq_true_iff.1 both).2
  | some n =>
    cases meets : p n with
    | true =>
      refine iff_of_true ?_ ?_
      · rw [argmax_filter_and_of_mem ts newest meets, Option.filter_some_pos meets]
      · rintro n' ⟨⟩ _ _ _ _
        exact meets
    | false =>
      have no : (some n).filter p = none := by simp [meets]
      rw [no, List.argmax_eq_none, List.filter_eq_nil_iff]
      constructor
      · rintro none n' ⟨⟩ x mem second first
        exact absurd (Bool.and_eq_true_iff.2 ⟨first, second⟩) (none x mem)
      · intro carries x mem both
        obtain ⟨first, second⟩ := Bool.and_eq_true_iff.1 both
        rw [carries n rfl x mem second first] at meets
        cases meets

end Zodia.Lib
