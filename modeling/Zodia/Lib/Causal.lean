import Zodia.Lib.Run
import Mathlib.Data.List.MinMax
import Mathlib.Data.List.Perm.Basic
import Mathlib.Data.Set.Insert

/-!
# Operations that depend on earlier ones

A replica takes operations in one at a time. Each names by key the operations it depends
on: it is taken in if they all were, and otherwise dropped for good. Operations that do not
depend on each other commute. A replica takes in all of a list exactly when the list
respects the dependencies, and lists that do lead to one state.

## Main definitions

* `Respects` — every operation of a list comes after those it depends on.
* `Replica` — the step function with its rules.
-/

namespace Zodia.Lib

variable {σ α κ : Type*}

section Respects

variable (key : α → κ) (deps : α → Set κ)

/-- Every operation of the list depends only on those of `T` and the ones before it. -/
def Respects (T : Set κ) : List α → Prop
  | [] => True
  | a :: l => deps a ⊆ T ∧ Respects (insert (key a) T) l

/-- The keys of a list. -/
def keys (l : List α) : Set κ := {k | ∃ a ∈ l, key a = k}

variable {key deps} {T : Set κ} {a : α} {l l' : List α}

@[simp] theorem respects_nil : Respects key deps T [] := trivial

@[simp] theorem respects_cons :
    Respects key deps T (a :: l) ↔ deps a ⊆ T ∧ Respects key deps (insert (key a) T) l := Iff.rfl

@[simp] theorem mem_keys {k : κ} : k ∈ keys key l ↔ ∃ a ∈ l, key a = k := Iff.rfl

theorem keys_perm (h : l.Perm l') : keys key l = keys key l' := by
  ext k
  simp [h.mem_iff]

theorem keys_cons : keys key (a :: l) = insert (key a) (keys key l) := by
  ext k
  simp [eq_comm]

/-- Operations that depend on nothing else may come in any order. -/
theorem Respects.of_forall (h : ∀ a ∈ l, deps a ⊆ T) : Respects key deps T l := by
  induction l generalizing T with
  | nil => trivial
  | cons a l ih =>
    refine ⟨h a List.mem_cons_self, ih fun b hb => ?_⟩
    exact (h b (List.mem_cons_of_mem _ hb)).trans (Set.subset_insert _ _)

/-- An operation that is ready may be moved to the front. -/
theorem Respects.move {u v : List α} (ready : deps a ⊆ T)
    (h : Respects key deps T (u ++ a :: v)) : Respects key deps T (a :: (u ++ v)) := by
  refine ⟨ready, ?_⟩
  induction u generalizing T with
  | nil => exact h.2
  | cons b u ih =>
    refine ⟨h.1.trans (Set.subset_insert _ _), ?_⟩
    rw [Set.insert_comm]
    exact ih (ready.trans (Set.subset_insert _ _)) h.2

variable (key) in
/-- Every order respects the dependencies exactly when there are none inside the list. -/
theorem forall_perm_respects_iff :
    (∀ l' : List α, l'.Perm l → Respects key deps T l') ↔ ∀ a ∈ l, deps a ⊆ T := by
  constructor
  · intro every a ha
    obtain ⟨u, v, rfl⟩ := List.append_of_mem ha
    exact (every (a :: (u ++ v)) List.perm_middle.symm).1
  · intro free l' perm
    exact Respects.of_forall fun a ha => free a (perm.mem_iff.1 ha)

/-- A list that is closed under dependencies, with a dependency always older than what
depends on it, can be put into an order that respects them. -/
theorem exists_perm_respects (age : κ → ℕ) (closed : ∀ a ∈ l, deps a ⊆ T ∪ keys key l)
    (older : ∀ a ∈ l, ∀ k ∈ deps a, age k < age (key a)) :
    ∃ l' : List α, l'.Perm l ∧ Respects key deps T l' := by
  induction n : l.length generalizing l T with
  | zero => exact ⟨l, .refl l, by simp [List.eq_nil_of_length_eq_zero n]⟩
  | succ n ih =>
    -- the oldest operation of the list can only depend on what is outside of it
    obtain ⟨a, hmin⟩ : ∃ a, l.argmin (age ∘ key) = some a := by
      cases h : l.argmin (age ∘ key) with
      | none => simp [List.argmin_eq_none.1 h] at n
      | some a => exact ⟨a, rfl⟩
    have ha : a ∈ l := List.argmin_mem hmin
    have ready : deps a ⊆ T := by
      intro k hk
      rcases closed a ha hk with old | ⟨b, hb, rfl⟩
      · exact old
      · have least : age (key a) ≤ age (key b) := List.le_of_mem_argmin (f := age ∘ key) hb hmin
        exact absurd (older a ha _ hk) (Nat.not_lt.2 least)
    obtain ⟨u, v, rfl⟩ := List.append_of_mem ha
    have front : (u ++ a :: v).Perm (a :: (u ++ v)) := List.perm_middle
    have rest : ∀ b ∈ u ++ v, b ∈ u ++ a :: v := fun b hb => by simp at hb ⊢; tauto
    obtain ⟨l', perm, respects⟩ := @ih (insert (key a) T) (u ++ v)
      (fun b hb => by
        rw [Set.insert_union, ← Set.union_insert, ← keys_cons, ← keys_perm front]
        exact closed b (rest b hb))
      (fun b hb => older b (rest b hb))
      (by simp at n ⊢; omega)
    exact ⟨a :: l', (perm.cons a).trans front.symm, ready, respects⟩

end Respects

/-! ## Replicas -/

/-- A step function on operations that name others by key, with the operations that a
state has taken in. -/
structure Replica (σ α κ : Type*) where
  step : σ → α → σ
  key : α → κ
  deps : α → Set κ
  taken : σ → Set κ
  /-- Without its dependencies an operation is dropped. -/
  blocked : ∀ s a, ¬ deps a ⊆ taken s → step s a = s
  takes : ∀ s a, deps a ⊆ taken s → taken (step s a) = insert (key a) (taken s)
  commutes : ∀ s a b, key a ≠ key b → key a ∉ taken s → key b ∉ taken s →
    deps a ⊆ taken s → deps b ⊆ taken s → step (step s a) b = step (step s b) a

namespace Replica

variable (R : Replica σ α κ) {s : σ} {l l' : List α}

/-- The operations of `l` are distinct and new to `s`. -/
structure Fresh (s : σ) (l : List α) : Prop where
  nodup : (l.map R.key).Nodup
  new : ∀ a ∈ l, R.key a ∉ R.taken s

variable {R}

theorem taken_step_subset (s : σ) (a : α) :
    R.taken (R.step s a) ⊆ insert (R.key a) (R.taken s) := by
  by_cases ready : R.deps a ⊆ R.taken s
  · rw [R.takes s a ready]
  · rw [R.blocked s a ready]
    exact Set.subset_insert _ _

/-- The rest of a fresh list is fresh, whatever becomes of its first operation. -/
theorem Fresh.tail {a : α} (h : R.Fresh s (a :: l)) : R.Fresh (R.step s a) l := by
  have nodup := List.nodup_cons.1 h.nodup
  refine ⟨nodup.2, fun b hb taken => ?_⟩
  rcases taken_step_subset s a taken with same | old
  · exact nodup.1 (same ▸ List.mem_map_of_mem hb)
  · exact h.new b (List.mem_cons_of_mem _ hb) old

theorem Fresh.perm (h : R.Fresh s l) (perm : l'.Perm l) : R.Fresh s l' :=
  ⟨(perm.map R.key).nodup_iff.2 h.nodup, fun a ha => h.new a (perm.mem_iff.1 ha)⟩

theorem taken_exec_subset (s : σ) (l : List α) :
    R.taken (exec R.step s l) ⊆ R.taken s ∪ keys R.key l := by
  induction l generalizing s with
  | nil => simp
  | cons a l ih =>
    refine (ih (R.step s a)).trans ?_
    rw [keys_cons, Set.union_insert, ← Set.insert_union]
    exact Set.union_subset_union_left _ (taken_step_subset s a)

theorem taken_exec_of_respects (h : Respects R.key R.deps (R.taken s) l) :
    R.taken (exec R.step s l) = R.taken s ∪ keys R.key l := by
  induction l generalizing s with
  | nil => ext k; simp
  | cons a l ih =>
    have takes := R.takes s a h.1
    rw [exec_cons, ih (takes ▸ h.2), takes, keys_cons, Set.union_insert, Set.insert_union]

/-- A fresh list is taken in as a whole exactly when it respects the dependencies. -/
theorem taken_exec_iff (fresh : R.Fresh s l) :
    (∀ a ∈ l, R.key a ∈ R.taken (exec R.step s l)) ↔ Respects R.key R.deps (R.taken s) l := by
  constructor
  · intro all
    induction l generalizing s with
    | nil => trivial
    | cons a l ih =>
      by_cases ready : R.deps a ⊆ R.taken s
      · refine ⟨ready, ?_⟩
        rw [← R.takes s a ready]
        exact ih fresh.tail fun b hb => all b (List.mem_cons_of_mem _ hb)
      · -- a dropped operation is not taken in later
        have lost := all a List.mem_cons_self
        rw [exec_cons, R.blocked s a ready] at lost
        rcases taken_exec_subset s l lost with old | ⟨b, hb, same⟩
        · exact absurd old (fresh.new a List.mem_cons_self)
        · exact absurd (same ▸ List.mem_map_of_mem hb) (List.nodup_cons.1 fresh.nodup).1
  · intro respects a ha
    rw [taken_exec_of_respects respects]
    exact .inr ⟨a, ha, rfl⟩

/-- An operation that is ready may be taken in first. -/
theorem exec_move {a : α} {u v : List α} (fresh : R.Fresh s (u ++ a :: v))
    (ready : R.deps a ⊆ R.taken s) (h : Respects R.key R.deps (R.taken s) (u ++ a :: v)) :
    exec R.step s (u ++ a :: v) = exec R.step s (a :: (u ++ v)) := by
  induction u generalizing s with
  | nil => rfl
  | cons b u ih =>
    have takes := R.takes s b h.1
    have moved := ih fresh.tail (takes ▸ ready.trans (Set.subset_insert _ _)) (takes ▸ h.2)
    have differ : R.key b ≠ R.key a := by
      have := (List.nodup_cons.1 fresh.nodup).1
      intro same
      exact this (by simp [same])
    have swap := R.commutes s b a differ (fresh.new b (by simp)) (fresh.new a (by simp)) h.1 ready
    rw [List.cons_append, exec_cons, moved, exec_cons, swap]
    rfl

/-- Lists of one set of operations that respect the dependencies lead to one state. -/
theorem exec_eq_of_perm (perm : l.Perm l') (fresh : R.Fresh s l)
    (h : Respects R.key R.deps (R.taken s) l) (h' : Respects R.key R.deps (R.taken s) l') :
    exec R.step s l = exec R.step s l' := by
  induction l generalizing s l' with
  | nil => rw [perm.nil_eq]
  | cons a l ih =>
    obtain ⟨u, v, rfl⟩ := List.append_of_mem (perm.mem_iff.1 (List.mem_cons_self))
    have takes := R.takes s a h.1
    have rest : l.Perm (u ++ v) := (perm.trans List.perm_middle).cons_inv
    rw [exec_move (fresh.perm perm.symm) h.1 h', exec_cons, exec_cons]
    exact ih rest fresh.tail (takes ▸ h.2) (takes ▸ (h'.move h.1).2)

end Replica

end Zodia.Lib
