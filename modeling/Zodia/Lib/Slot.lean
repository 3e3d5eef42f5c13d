import Mathlib.Data.List.Basic

/-!
# Fields that own a resource

An optional field owns a resource that is released when it is dropped. An assignment drops what
the field held, so of all resources that were ever in the field one at most is not released.

## Main definitions

* `Slot` — the resources acquired so far, and which of them the field holds.
* `Slot.assign` — an assignment to the field.

## Main results

* `Slot.value_assign`, `Slot.live_eq` — the field has the value assigned last, and only this one
  is live.
-/

namespace Zodia.Lib

variable {α : Type*}

/-- A resource and whether it is released. -/
structure Resource (α : Type*) where
  value : α
  released : Bool

def Resource.release (r : Resource α) : Resource α := { r with released := true }

/-- The resources after the one that is held is dropped. -/
def dropHeld (held : Option ℕ) (acquired : List (Resource α)) : List (Resource α) :=
  match held with
  | some i => acquired.modify i Resource.release
  | none => acquired

/-- The resource that is held is live. -/
def HeldLive (held : Option ℕ) (acquired : List (Resource α)) : Prop :=
  ∀ i, held = some i → ∃ r, acquired[i]? = some r ∧ r.released = false

/-- Every resource that is not held is released. -/
def RestReleased (held : Option ℕ) (acquired : List (Resource α)) : Prop :=
  ∀ r ∈ dropHeld held acquired, r.released = true

/-- The resources acquired so far and the place of the one in the field. -/
structure Slot (α : Type*) where
  acquired : List (Resource α)
  held : Option ℕ
  heldLive : HeldLive held acquired
  restReleased : RestReleased held acquired

theorem heldLive_none (acquired : List (Resource α)) : HeldLive none acquired :=
  fun i eq => absurd eq.symm (Option.some_ne_none i)

theorem restReleased_nil : RestReleased none ([] : List (Resource α)) :=
  fun _ mem => absurd mem List.not_mem_nil

theorem heldLive_append (before : List (Resource α)) (a : α) :
    HeldLive (some before.length) (before ++ [⟨a, false⟩]) := by
  rintro i ⟨⟩
  exact ⟨⟨a, false⟩, by simp, rfl⟩

theorem restReleased_append {before : List (Resource α)} (all : ∀ r ∈ before, r.released = true)
    (a : α) : RestReleased (some before.length) (before ++ [⟨a, false⟩]) := by
  have dropped : dropHeld (some before.length) (before ++ [⟨a, false⟩]) =
      before ++ [⟨a, true⟩] := by
    simp [dropHeld, List.modify_eq_take_drop, Resource.release]
  intro r mem
  rw [dropped] at mem
  rcases List.mem_append.1 mem with old | new
  · exact all r old
  · rw [List.mem_singleton.1 new]

namespace Slot

def empty : Slot α := ⟨[], none, heldLive_none [], restReleased_nil⟩

/-- What the field holds. -/
def value (s : Slot α) : Option α :=
  s.held.bind fun i => (s.acquired[i]?).map Resource.value

/-- How many of the resources are not released. -/
def live (s : Slot α) : ℕ := s.acquired.countP fun r => !r.released

/-- An assignment drops what the field held. -/
def assign (s : Slot α) : Option α → Slot α
  | some a =>
    let dropped := dropHeld s.held s.acquired
    ⟨dropped ++ [⟨a, false⟩], some dropped.length, heldLive_append dropped a,
      restReleased_append s.restReleased a⟩
  | none => ⟨dropHeld s.held s.acquired, none, heldLive_none _, s.restReleased⟩

@[simp] theorem value_empty : (empty : Slot α).value = none := rfl

@[simp] theorem value_assign (s : Slot α) (new : Option α) : (s.assign new).value = new := by
  cases new with
  | none => rfl
  | some a => simp [assign, value]

/-- Only what the field holds is live. -/
theorem live_eq (s : Slot α) : s.live = s.value.toList.length := by
  obtain ⟨acquired, held, heldLive, restReleased⟩ := s
  cases held with
  | none =>
    have none : ∀ r ∈ acquired, ¬ (!r.released) = true := fun r mem => by
      simpa using restReleased r mem
    exact List.countP_eq_zero.2 none
  | some i =>
    obtain ⟨r, here, running⟩ := heldLive i rfl
    obtain ⟨lt, rfl⟩ := List.getElem?_eq_some_iff.1 here
    have dropped : dropHeld (some i) acquired =
        acquired.take i ++ acquired[i].release :: acquired.drop (i + 1) :=
      List.modify_eq_take_cons_drop lt
    have rest : (acquired.take i ++ acquired.drop (i + 1)).countP (fun r => !r.released) = 0 := by
      refine List.countP_eq_zero.2 fun r mem => ?_
      have released := restReleased r (by
        rw [dropped]
        exact List.mem_append.2 ((List.mem_append.1 mem).imp_right (List.mem_cons_of_mem _)))
      simpa using released
    have around : acquired = acquired.take i ++ acquired[i] :: acquired.drop (i + 1) := by simp
    calc acquired.countP (fun r => !r.released)
        = (acquired.take i ++ acquired[i] :: acquired.drop (i + 1)).countP
            (fun r => !r.released) := by rw [← around]
      _ = (acquired.take i ++ acquired.drop (i + 1)).countP (fun r => !r.released) + 1 := by
          rw [List.countP_append, List.countP_append,
            List.countP_cons_of_pos (by simpa using running)]
          omega
      _ = (value ⟨acquired, some i, heldLive, restReleased⟩).toList.length := by
          rw [rest]
          simp [value, lt]

end Slot

end Zodia.Lib
