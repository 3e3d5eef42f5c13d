import Mathlib.Algebra.BigOperators.Group.List.Basic
import Mathlib.Algebra.Order.Ring.Nat

/-!
# Texts in UTF-8

The length of a text in bytes, and its slices up to a byte. A slice that would end inside a
character, or after the end, panics.

## Main definitions

* `utf8Len` — the length in bytes.
* `sliceTo` — a slice of a text up to a byte; `none` stands for a panic.

## Main results

* `sliceTo_eq_none_iff` — a slice that is not too long panics exactly if it splits a character.
-/

namespace Zodia.Lib

/-- The length of a text in bytes of UTF-8. -/
def utf8Len (l : List Char) : ℕ := (l.map Char.utf8Size).sum

/-- `&s[..n]`: the characters of the first `n` bytes. It panics if the text is shorter, or if a
character begins before the end and goes on after it. -/
def sliceTo : ℕ → List Char → Option (List Char)
  | 0, _ => some []
  | _ + 1, [] => none
  | n + 1, c :: l =>
    if c.utf8Size ≤ n + 1 then (sliceTo (n + 1 - c.utf8Size) l).map (c :: ·) else none

/-- A character begins before the byte `n` and goes on after it. -/
def SplitAt (n : ℕ) (l : List Char) : Prop :=
  ∃ a c b, l = a ++ c :: b ∧ utf8Len a < n ∧ n < utf8Len a + c.utf8Size

@[simp] theorem utf8Len_nil : utf8Len [] = 0 := rfl

@[simp] theorem utf8Len_cons (c : Char) (l : List Char) :
    utf8Len (c :: l) = c.utf8Size + utf8Len l := by simp [utf8Len]

theorem not_splitAt_zero (l : List Char) : ¬ SplitAt 0 l := by
  rintro ⟨a, c, b, -, before, -⟩
  omega

theorem splitAt_cons {n : ℕ} {c : Char} {l : List Char} (fits : c.utf8Size ≤ n) :
    SplitAt n (c :: l) ↔ SplitAt (n - c.utf8Size) l := by
  constructor
  · rintro ⟨a, d, b, whole, before, after⟩
    cases a with
    | nil =>
      obtain ⟨rfl, rfl⟩ := List.cons.inj whole
      simp at after
      omega
    | cons e a =>
      obtain ⟨rfl, rfl⟩ := List.cons.inj whole
      simp only [utf8Len_cons] at before after
      exact ⟨a, d, b, rfl, by omega, by omega⟩
  · rintro ⟨a, d, b, rfl, before, after⟩
    refine ⟨c :: a, d, b, rfl, ?_, ?_⟩ <;>
      · simp only [utf8Len_cons]
        omega

/-- A slice of a text that is long enough panics exactly if it would split a character. -/
theorem sliceTo_eq_none_iff {n : ℕ} {l : List Char} (long : n ≤ utf8Len l) :
    sliceTo n l = none ↔ SplitAt n l := by
  induction l generalizing n with
  | nil =>
    obtain rfl : n = 0 := by simpa using long
    simp [sliceTo, not_splitAt_zero]
  | cons c l ih =>
    cases n with
    | zero => simp [sliceTo, not_splitAt_zero]
    | succ n =>
      rw [utf8Len_cons] at long
      by_cases fits : c.utf8Size ≤ n + 1
      · rw [sliceTo, if_pos fits, Option.map_eq_none_iff, ih (by omega), splitAt_cons fits]
      · rw [sliceTo, if_neg fits]
        refine iff_of_true rfl ⟨[], c, l, rfl, by simp, ?_⟩
        rw [utf8Len_nil]
        omega

end Zodia.Lib
