import Mathlib.Data.Finset.Image
import Mathlib.Data.Finset.Max

/-!
# Heads of a history

A history is a set of operations, each with a key and the keys of the operations it depends on.
Its heads are the keys that nothing in it depends on. Among histories that are closed under
dependencies, and in which a key stands for one operation, the heads determine the history.

## Main definitions

* `DependsWithin` — every operation depends on operations of the history.
* `heads` — the keys on which no operation of the history depends.

## Main results

* `heads_inj` — histories with the same heads are the same.
-/

namespace Zodia.Lib

variable {α κ : Type*} (key : α → κ) (deps : α → Finset κ)

/-- Every operation of the history depends on operations of the history. -/
def DependsWithin (S : Finset α) : Prop := ∀ a ∈ S, ∀ k ∈ deps a, ∃ b ∈ S, key b = k

/-- What an operation depends on is older. -/
def DependsOnOlder (age : α → ℕ) (S : Finset α) : Prop :=
  ∀ a ∈ S, ∀ b ∈ S, key a ∈ deps b → age a < age b

/-- A key stands for one operation in both histories. -/
def AgreeOnKeys (S T : Finset α) : Prop := ∀ a ∈ S, ∀ b ∈ T, key a = key b → a = b

/-- The keys on which no operation of the history depends. -/
def heads [DecidableEq κ] (S : Finset α) : Finset κ :=
  (S.image key).filter fun k => ∀ a ∈ S, k ∉ deps a

variable {key deps} {S T : Finset α} {age : α → ℕ}

theorem AgreeOnKeys.symm (h : AgreeOnKeys key S T) : AgreeOnKeys key T S :=
  fun a ha b hb same => (h b hb a ha same.symm).symm

theorem DependsWithin.union [DecidableEq α] (hS : DependsWithin key deps S)
    (hT : DependsWithin key deps T) : DependsWithin key deps (S ∪ T) := by
  intro a ha k hk
  rcases Finset.mem_union.1 ha with ha | ha
  · obtain ⟨b, hb, same⟩ := hS a ha k hk
    exact ⟨b, Finset.mem_union_left _ hb, same⟩
  · obtain ⟨b, hb, same⟩ := hT a ha k hk
    exact ⟨b, Finset.mem_union_right _ hb, same⟩

/-- What an operation depends on is in its own history already. -/
theorem DependsOnOlder.union [DecidableEq α] (hS : DependsOnOlder key deps age S)
    (hT : DependsOnOlder key deps age T) (closedS : DependsWithin key deps S)
    (closedT : DependsWithin key deps T) (agree : AgreeOnKeys key S T) :
    DependsOnOlder key deps age (S ∪ T) := by
  intro a ha b hb dep
  rcases Finset.mem_union.1 ha with ha | ha <;> rcases Finset.mem_union.1 hb with hb | hb
  · exact hS a ha b hb dep
  · obtain ⟨c, hc, same⟩ := closedT b hb _ dep
    exact hT a (agree a ha c hc same.symm ▸ hc) b hb dep
  · obtain ⟨c, hc, same⟩ := closedS b hb _ dep
    exact hS a (agree c hc a ha same ▸ hc) b hb dep
  · exact hT a ha b hb dep

variable [DecidableEq κ]

theorem mem_heads {k : κ} : k ∈ heads key deps S ↔ (∃ a ∈ S, key a = k) ∧ ∀ a ∈ S, k ∉ deps a := by
  rw [heads, Finset.mem_filter, Finset.mem_image]

/-- A history that has the heads of another one has all of it. -/
theorem subset_of_heads (older : DependsOnOlder key deps age S) (closed : DependsWithin key deps T)
    (agree : AgreeOnKeys key S T) (covered : ∀ k ∈ heads key deps S, ∃ b ∈ T, key b = k) :
    S ⊆ T := by
  by_contra missing
  -- the youngest operation that is missing is a head, or a younger one depends on it
  obtain ⟨a, ha, youngest⟩ : ∃ a, (a ∈ S ∧ a ∉ T) ∧ ∀ b, b ∈ S → b ∉ T → age b ≤ age a := by
    classical
    obtain ⟨c, hc, out⟩ := Finset.not_subset.1 missing
    obtain ⟨a, ha, max⟩ := (S.filter (· ∉ T)).exists_max_image age
      ⟨c, Finset.mem_filter.2 ⟨hc, out⟩⟩
    exact ⟨a, Finset.mem_filter.1 ha, fun b hb out => max b (Finset.mem_filter.2 ⟨hb, out⟩)⟩
  have held : ∃ b ∈ T, key b = key a := by
    by_cases free : ∀ b ∈ S, key a ∉ deps b
    · exact covered _ (mem_heads.2 ⟨⟨a, ha.1, rfl⟩, free⟩)
    · simp only [not_forall, not_not] at free
      obtain ⟨b, hb, dep⟩ := free
      by_cases inT : b ∈ T
      · exact closed b inT _ dep
      · exact absurd (older a ha.1 b hb dep) (Nat.not_lt.2 (youngest b hb inT))
  obtain ⟨b, hb, same⟩ := held
  exact ha.2 (agree a ha.1 b hb same.symm ▸ hb)

/-- Histories with the same heads are the same. -/
theorem heads_inj (olderS : DependsOnOlder key deps age S) (olderT : DependsOnOlder key deps age T)
    (closedS : DependsWithin key deps S) (closedT : DependsWithin key deps T)
    (agree : AgreeOnKeys key S T) : heads key deps S = heads key deps T ↔ S = T := by
  constructor
  · intro same
    apply Finset.Subset.antisymm
    · exact subset_of_heads olderS closedT agree fun k hk => (mem_heads.1 (same ▸ hk)).1
    · exact subset_of_heads olderT closedS agree.symm fun k hk => (mem_heads.1 (same ▸ hk)).1
  · rintro rfl
    rfl

end Zodia.Lib
