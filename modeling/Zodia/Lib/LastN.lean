import Mathlib.Data.List.Basic

/-!
# The newest entries of a list

A buffer that keeps its newest `n` entries, as `lastN n` of all that was ever pushed.

## Main results

* `lastN_lastN_append` — dropping early and dropping late come to the same.
* `lastN_append_replicate_eq_self` — when pushing an entry changes nothing.
* `pushAll_again_iff` — when pushing a start of the entries first changes nothing.
-/

namespace Zodia.Lib

variable {α β : Type*} {n : ℕ}

/-- The last `n` entries: older ones are dropped. -/
def lastN (n : ℕ) (l : List α) : List α := l.drop (l.length - n)

theorem length_lastN (l : List α) : (lastN n l).length = min n l.length := by
  simp only [lastN, List.length_drop]
  omega

theorem length_lastN_le (l : List α) : (lastN n l).length ≤ n := by
  rw [length_lastN]
  exact Nat.min_le_left _ _

theorem lastN_of_length_le {l : List α} (h : l.length ≤ n) : lastN n l = l := by
  simp [lastN, Nat.sub_eq_zero_of_le h]

theorem lastN_suffix (l : List α) : lastN n l <:+ l := List.drop_suffix _ _

theorem map_lastN (f : α → β) (l : List α) : (lastN n l).map f = lastN n (l.map f) := by
  simp [lastN]

/-- What is dropped early would be dropped late. -/
theorem lastN_lastN_append (l m : List α) : lastN n (lastN n l ++ m) = lastN n (l ++ m) := by
  simp only [lastN, List.length_append, List.length_drop, List.drop_append, List.drop_drop]
  congr 2 <;> omega

/-- What came before `n` newer entries does not count. -/
theorem lastN_append_of_le {m : List α} (h : n ≤ m.length) (l : List α) :
    lastN n (l ++ m) = lastN n m := by
  have start : (l ++ m).length - n = l.length + (m.length - n) := by
    rw [List.length_append]
    omega
  rw [lastN, start, ← List.drop_drop, List.drop_left, lastN]

/-- Entries that leave the same newest ones leave them after any others. -/
theorem lastN_append_congr {m m' : List α} (h : lastN n m = lastN n m') (l : List α) :
    lastN n (l ++ m) = lastN n (l ++ m') := by
  have lengths := congrArg List.length h
  rw [length_lastN, length_lastN] at lengths
  by_cases many : n ≤ m.length
  · rw [lastN_append_of_le many, lastN_append_of_le (by omega), h]
  · rw [lastN_of_length_le (by omega), lastN_of_length_le (by omega)] at h
    rw [h]

/-- Entries that fit push out what came before them. -/
theorem lastN_append_fits {m : List α} (fits : m.length ≤ n) (l : List α) :
    lastN n (l ++ m) = lastN (n - m.length) l ++ m := by
  have start : l.length + m.length - n = l.length - (n - m.length) := by omega
  rw [lastN, List.length_append, start, List.drop_append_of_le_length (Nat.sub_le _ _), lastN]

theorem lastN_append_singleton (h : 0 < n) (l : List α) (x : α) :
    lastN n (l ++ [x]) = lastN (n - 1) l ++ [x] := lastN_append_fits h l

theorem getLast?_lastN (h : 0 < n) (l : List α) : (lastN n l).getLast? = l.getLast? := by
  rw [lastN, List.getLast?_drop]
  split_ifs with short
  · have none : l = [] := List.eq_nil_of_length_eq_zero (by omega)
    rw [none, List.getLast?_nil]
  · rfl

/-- Pushing an entry, as often as one likes, leaves a buffer as it is exactly when the buffer
is full of it. -/
theorem lastN_append_replicate_eq_self {l : List α} {c : ℕ} (pushed : 0 < c) (x : α) :
    lastN n (l ++ List.replicate c x) = l ↔ l = List.replicate n x := by
  constructor
  · intro same
    have again : ∀ k, lastN n (l ++ List.replicate (k * c) x) = l := by
      intro k
      induction k with
      | zero =>
        have short : l.length ≤ n := by
          rw [← same, length_lastN]
          exact Nat.min_le_left _ _
        simpa using lastN_of_length_le short
      | succ k ih =>
        rw [Nat.succ_mul, Nat.add_comm, List.replicate_add, ← List.append_assoc,
          ← lastN_lastN_append, same, ih]
    have many : n ≤ n * c := Nat.le_mul_of_pos_right n pushed
    rw [← again n, lastN_append_of_le (by simpa using many)]
    simp [lastN, Nat.sub_sub_self many]
  · rintro rfl
    rw [← List.replicate_add]
    simp [lastN]

/-- Pushing an entry `c` times and dropping the newest `c` entries gives a buffer back exactly
when the entries fit or the buffer was empty. -/
theorem take_lastN_append_replicate_eq_self {l : List α} {c : ℕ} (x : α) :
    (lastN n (l ++ List.replicate c x)).take ((lastN n (l ++ List.replicate c x)).length - c) = l ↔
      l = [] ∨ l.length + c ≤ n := by
  constructor
  · intro same
    have lengths := congrArg List.length same
    rw [List.length_take, length_lastN, List.length_append, List.length_replicate] at lengths
    by_cases empty : l.length = 0
    · exact .inl (List.eq_nil_of_length_eq_zero empty)
    · exact .inr (by omega)
  · rintro (rfl | fits)
    · have all : (lastN n (List.replicate c x)).length ≤ c := by
        rw [length_lastN, List.length_replicate]
        exact Nat.min_le_right _ _
      rw [List.nil_append, Nat.sub_eq_zero_of_le all, List.take_zero]
    · rw [lastN_of_length_le (by rwa [List.length_append, List.length_replicate]),
        List.length_append, List.length_replicate, Nat.add_sub_cancel, List.take_left]

/-! ## Buffers -/

/-- What a buffer that held `l` holds after each of `es` has been pushed onto it. -/
def pushAll (n : ℕ) (l es : List α) : List α := es.foldl (fun l e => lastN n (l ++ [e])) l

@[simp] theorem pushAll_nil (l : List α) : pushAll n l [] = l := rfl

@[simp] theorem pushAll_cons (l es : List α) (e : α) :
    pushAll n l (e :: es) = pushAll n (lastN n (l ++ [e])) es := rfl

theorem pushAll_of_ne_nil {es : List α} (nonempty : es ≠ []) (l : List α) :
    pushAll n l es = lastN n (l ++ es) := by
  induction es generalizing l with
  | nil => contradiction
  | cons e es ih =>
    by_cases rest : es = []
    · rw [rest]
      rfl
    · rw [pushAll, List.foldl_cons, ← pushAll, ih rest, lastN_lastN_append,
        List.append_assoc, List.singleton_append]

/-- Pushing the first of the entries and then all of them is the same as pushing them once,
and no older entry is left, exactly when the entries fill the buffer or it was empty and
nothing had been pushed. -/
theorem pushAll_again_iff {l p es : List α} (pos : 0 < n) (start : p <+: es) (f : α → β) :
    (pushAll n (pushAll n l p) es = pushAll n l es ∧
        (pushAll n l es).map f = lastN n (es.map f)) ↔
      n ≤ es.length ∨ l = [] ∧ p = [] := by
  by_cases none : es = []
  · subst none
    obtain rfl := List.prefix_nil.1 start
    have room : ¬ n ≤ 0 := by omega
    simp [pushAll, lastN, room]
  have again : pushAll n (pushAll n l p) es = lastN n (l ++ p ++ es) := by
    rw [pushAll_of_ne_nil none]
    by_cases first : p = []
    · simp [first, pushAll]
    · rw [pushAll_of_ne_nil first, lastN_lastN_append]
  rw [again, pushAll_of_ne_nil none]
  constructor
  · rintro ⟨same, newest⟩
    have short := congrArg List.length same
    have short' := congrArg List.length newest
    simp only [length_lastN, List.length_append, List.length_map] at short short'
    by_cases full : n ≤ es.length
    · exact .inl full
    · exact .inr ⟨List.eq_nil_of_length_eq_zero (by omega),
        List.eq_nil_of_length_eq_zero (by omega)⟩
  · rintro (full | ⟨rfl, rfl⟩)
    · rw [lastN_append_of_le full, lastN_append_of_le full, map_lastN]
      exact ⟨rfl, rfl⟩
    · exact ⟨rfl, map_lastN f es⟩

end Zodia.Lib
