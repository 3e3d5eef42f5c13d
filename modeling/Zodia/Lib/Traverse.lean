import Mathlib.Data.List.Forall2

/-!
# Lists of fallible results

A function that may fail is applied along a list, and the whole fails if it fails once.

## Main results

* `mapM_eq_some_iff` — the results are those of the elements, one for each and in order.
* `exists_forall₂` — if every element has a related one, the list has a list of these.
-/

namespace Zodia.Lib

variable {α β : Type*}

theorem mapM_eq_some_iff {f : α → Option β} {l : List α} {bs : List β} :
    l.mapM f = some bs ↔ List.Forall₂ (fun a b => f a = some b) l bs := by
  induction l generalizing bs with
  | nil => simp [eq_comm]
  | cons a l ih =>
    simp only [List.mapM_cons, Option.bind_eq_bind, Option.bind_eq_some_iff, Option.pure_def,
      Option.some.injEq, ih, List.forall₂_cons_left_iff]
    constructor
    · rintro ⟨b, here, bs, rest, rfl⟩
      exact ⟨b, bs, here, rest, rfl⟩
    · rintro ⟨b, bs, here, rest, rfl⟩
      exact ⟨b, here, bs, rest, rfl⟩

theorem exists_forall₂ {R : α → β → Prop} {l : List α} (all : ∀ a ∈ l, ∃ b, R a b) :
    ∃ bs, List.Forall₂ R l bs := by
  induction l with
  | nil => exact ⟨[], .nil⟩
  | cons a l ih =>
    obtain ⟨⟨b, here⟩, rest⟩ := List.forall_mem_cons.1 all
    obtain ⟨bs, others⟩ := ih rest
    exact ⟨b :: bs, .cons here others⟩

end Zodia.Lib
