import Mathlib.Data.List.Basic

/-!
# Passes over positions

A list is scanned once, and every position is noted down as a hit with a value or as a miss.
Later the hits are written and the misses deleted, from behind, by position. Nothing moves before
it is reached, so the result is the list with the hits written and the misses left out.

## Main results

* `foldl_modify_hits` — the writes reach the elements that were hit.
* `foldl_eraseIdx_misses` — the deletions leave the elements that were hit.
-/

namespace Zodia.Lib

variable {α β γ : Type*} (f : α → Option β)

/-- The positions from `k` on whose elements have a value, with that value. -/
def hits (k : ℕ) : List α → List (ℕ × β)
  | [] => []
  | a :: l =>
    match f a with
    | some b => (k, b) :: hits (k + 1) l
    | none => hits (k + 1) l

/-- The positions from `k` on whose elements have no value. -/
def misses (k : ℕ) : List α → List ℕ
  | [] => []
  | a :: l =>
    match f a with
    | some _ => misses (k + 1) l
    | none => k :: misses (k + 1) l

variable {f}

theorem hits_cons_some {a : α} {b : β} (hit : f a = some b) (k : ℕ) (l : List α) :
    hits f k (a :: l) = (k, b) :: hits f (k + 1) l := by
  rw [hits, hit]

theorem hits_cons_none {a : α} (miss : f a = none) (k : ℕ) (l : List α) :
    hits f k (a :: l) = hits f (k + 1) l := by
  rw [hits, miss]

theorem misses_cons_some {a : α} {b : β} (hit : f a = some b) (k : ℕ) (l : List α) :
    misses f k (a :: l) = misses f (k + 1) l := by
  rw [misses, hit]

theorem misses_cons_none {a : α} (miss : f a = none) (k : ℕ) (l : List α) :
    misses f k (a :: l) = k :: misses f (k + 1) l := by
  rw [misses, miss]

theorem hits_congr {g : α → Option β} {l : List α} (same : ∀ a ∈ l, f a = g a) (k : ℕ) :
    hits f k l = hits g k l := by
  induction l generalizing k with
  | nil => rfl
  | cons a l ih =>
    obtain ⟨here, rest⟩ := List.forall_mem_cons.1 same
    rw [hits, hits, here, ih rest]

theorem misses_congr {g : α → Option β} {l : List α} (same : ∀ a ∈ l, f a = g a) (k : ℕ) :
    misses f k l = misses g k l := by
  induction l generalizing k with
  | nil => rfl
  | cons a l ih =>
    obtain ⟨here, rest⟩ := List.forall_mem_cons.1 same
    rw [misses, misses, here, ih rest]

/-- Every element that was hit is written, and no other. -/
theorem foldl_modify_hits (g : β → α → α) (before l : List α) :
    (hits f before.length l).foldl (fun rows hit => rows.modify hit.1 (g hit.2)) (before ++ l) =
      before ++ l.map fun a => (f a).elim a fun b => g b a := by
  induction l generalizing before with
  | nil => simp [hits]
  | cons a l ih =>
    cases found : f a with
    | some b =>
      have written : (before ++ a :: l).modify before.length (g b) =
          (before ++ [g b a]) ++ l := by
        simp [List.modify_eq_take_drop]
      have step := ih (before ++ [g b a])
      rw [List.length_append, List.length_singleton] at step
      rw [hits_cons_some found, List.foldl_cons, written, step]
      simp [found]
    | none =>
      have step := ih (before ++ [a])
      rw [List.length_append, List.length_singleton] at step
      rw [hits_cons_none found, List.append_cons, step]
      simp [found]

/-- From behind, every element that was missed is deleted, and no other. -/
theorem foldl_eraseIdx_misses (h : α → γ) (before : List γ) (l : List α) :
    (misses f before.length l).reverse.foldl (fun rows i => rows.eraseIdx i)
        (before ++ l.map h) =
      before ++ (l.filter fun a => (f a).isSome).map h := by
  rw [List.foldl_reverse]
  induction l generalizing before with
  | nil => simp [misses]
  | cons a l ih =>
    have step := ih (before ++ [h a])
    rw [List.length_append, List.length_singleton] at step
    rw [List.map_cons, List.append_cons]
    cases found : f a with
    | some b =>
      rw [misses_cons_some found, step]
      simp [found]
    | none =>
      rw [misses_cons_none found, List.foldr_cons, step]
      simp [found, List.eraseIdx_append_of_length_le]

end Zodia.Lib
