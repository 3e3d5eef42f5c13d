import Zodia.Lib.Table

/-!
# Joins and limits

A join on a primary key finds one row at most for each row on the left. The newest rows of a
union are among the newest of each part, so a limit may be applied to the parts first.

## Main definitions

* `Table.join` — the pairs of a join on the primary key.

## Main results

* `Table.countP_join` — what a join counts, counted on the left.
* `Arranged.exists_dropped` — before what a limit cuts off come as many rows as it allows.
* `Arranged.of_kept` — rows that so many others come before may be left out.
* `Arranged.unique` — rows that the order separates come in one order.
-/

namespace Zodia.Lib

variable {Row Key α : Type*} {key : Row → Key}

/-! ## Joins -/

namespace Table

variable [DecidableEq Key]

/-- `JOIN`: each entry of `l` with the row it refers to. -/
def join (l : List α) (t : Table key) (ref : α → Option Key) : List (α × Row) :=
  l.flatMap fun a => (t.rows.filter fun r => ref a = some (key r)).map fun r => (a, r)

/-- The rows a reference meets: one at most. -/
theorem filter_ref (t : Table key) (ref : Option Key) :
    t.rows.filter (fun r => ref = some (key r)) = (ref.bind t.find?).toList := by
  cases ref with
  | none => simp
  | some k =>
    rw [Option.bind_some, ← t.filter_key k]
    exact List.filter_congr fun r _ => by simp [eq_comm]

theorem countP_join (l : List α) (t : Table key) (ref : α → Option Key) (p : α × Row → Bool) :
    (t.join l ref).countP p = l.countP fun a => ((ref a).bind t.find?).any fun r => p (a, r) := by
  induction l with
  | nil => rfl
  | cons a l ih =>
    have head : ((t.rows.filter fun r => ref a = some (key r)).map fun r => (a, r)).countP p =
        if ((ref a).bind t.find?).any (fun r => p (a, r)) then 1 else 0 := by
      rw [filter_ref]
      cases (ref a).bind t.find? with
      | none => rfl
      | some r => simp [List.countP_cons]
    rw [join, List.flatMap_cons, List.countP_append, ← join, ih, head, List.countP_cons,
      Nat.add_comm]

/-! ### The keys of a table after inserts -/

theorem find?_isSome_insertOrIgnore {t : Table key} {r : Row} {k : Key} :
    ((t.insertOrIgnore r).find? k).isSome ↔ key r = k ∨ (t.find? k).isSome := by
  simp only [find?_isSome, mem_insertOrIgnore]
  constructor
  · rintro ⟨x, old | ⟨rfl, -⟩, same⟩
    · exact .inr ⟨x, old, same⟩
    · exact .inl same
  · rintro (same | ⟨x, hx, same⟩)
    · by_cases free : t.Free (key r)
      · exact ⟨r, .inr ⟨rfl, free⟩, same⟩
      · obtain ⟨x, hx, taken⟩ : ∃ x ∈ t, key x = key r := by simpa [Free] using free
        exact ⟨x, .inl hx, taken.trans same⟩
    · exact ⟨x, .inl hx, same⟩

theorem find?_isSome_foldl_insertOrIgnore {f : α → Row} {es : List α} {t : Table key} {k : Key} :
    ((es.foldl (fun t e => t.insertOrIgnore (f e)) t).find? k).isSome ↔
      (∃ e ∈ es, key (f e) = k) ∨ (t.find? k).isSome := by
  induction es generalizing t with
  | nil => simp
  | cons e es ih =>
    rw [List.foldl_cons, ih, find?_isSome_insertOrIgnore]
    simp only [List.mem_cons, exists_eq_or_imp]
    exact or_left_comm.trans or_assoc.symm

end Table

/-! ## Counts -/

/-- Counting what meets a weaker predicate gives the same number exactly if it meets the stronger
one too. -/
theorem countP_eq_iff_of_imp {p q : α → Bool} {l : List α} (imp : ∀ x ∈ l, p x → q x) :
    l.countP q = l.countP p ↔ ∀ x ∈ l, q x → p x := by
  constructor
  · intro same x hx hq
    have sublist : (l.filter p).Sublist (l.filter q) := by
      have twice : l.filter p = (l.filter q).filter p := by
        rw [List.filter_filter]
        refine List.filter_congr fun x hx => ?_
        cases hp : p x with
        | true => rw [imp x hx hp, Bool.and_self]
        | false => rfl
      rw [twice]
      exact List.filter_sublist
    rw [List.countP_eq_length_filter, List.countP_eq_length_filter] at same
    have member : x ∈ l.filter q := List.mem_filter.2 ⟨hx, hq⟩
    rw [← sublist.eq_of_length same.symm] at member
    exact (List.mem_filter.1 member).2
  · exact fun back => List.countP_congr fun x hx => ⟨back x hx, imp x hx⟩

section Update

variable {p : Key → Bool} {k : Key} [DecidableEq Key]

theorem any_update (absent : p k = false) (b : Bool) (ref : Option Key) :
    ref.any (Function.update p k b) = (ref.any p || b && decide (ref = some k)) := by
  cases ref with
  | none => simp
  | some k' =>
    by_cases same : k' = k
    · subst same
      simp [absent]
    · simp [same]

theorem any_update_of_any (absent : p k = false) (b : Bool) (ref : α → Option Key)
    (q : α → Bool) {l : List α} (a : α) (_ : a ∈ l) (h : ((ref a).any p && q a) = true) :
    ((ref a).any (Function.update p k b) && q a) = true := by
  rw [any_update absent]
  simp only [Bool.and_eq_true] at h
  simp [h]

/-- What refers to a key that meets a condition stays counted when the condition comes to hold of
one more key. -/
theorem countP_any_update_le (absent : p k = false) (b : Bool) (ref : α → Option Key)
    (q : α → Bool) (l : List α) :
    l.countP (fun a => (ref a).any p && q a) ≤
      l.countP fun a => (ref a).any (Function.update p k b) && q a :=
  List.countP_mono_left (any_update_of_any absent b ref q)

/-- It is counted as often exactly if nothing refers to that key. -/
theorem countP_any_update_eq_iff (absent : p k = false) (b : Bool) (ref : α → Option Key)
    (q : α → Bool) (l : List α) :
    l.countP (fun a => (ref a).any (Function.update p k b) && q a) =
        l.countP (fun a => (ref a).any p && q a) ↔
      ¬ (b = true ∧ ∃ a ∈ l, ref a = some k ∧ q a = true) := by
  rw [countP_eq_iff_of_imp (any_update_of_any absent b ref q)]
  simp only [any_update absent, Bool.and_eq_true, Bool.or_eq_true, decide_eq_true_eq]
  constructor
  · rintro back ⟨new, a, ha, named, counted⟩
    have old := (back a ha ⟨.inr ⟨new, named⟩, counted⟩).1
    rw [named, Option.any_some, absent] at old
    cases old
  · rintro quiet a ha ⟨old | ⟨new, named⟩, counted⟩
    · exact ⟨old, counted⟩
    · exact absurd ⟨new, a, ha, named, counted⟩ quiet

end Update

/-! ## Limits -/

section Limits

variable {le : Row → Row → Prop} {n : ℕ} {rows kept dropped out : List Row}

theorem exists_sorted (total : ∀ r r', le r r' ∨ le r' r)
    (trans : ∀ r s t, le r s → le s t → le r t) (rows : List Row) :
    ∃ sorted : List Row, sorted.Perm rows ∧ sorted.Pairwise le := by
  classical
  have : Std.Total le := ⟨total⟩
  have : IsTrans Row le := ⟨trans⟩
  exact ⟨_, List.perm_insertionSort le rows, List.pairwise_insertionSort le rows⟩

/-- A row of the first `n` has fewer than `n` rows before it. -/
theorem countP_lt_of_mem_take {sorted : List Row} {p : Row → Bool} {o : Row}
    (order : sorted.Pairwise le) (ho : o ∈ sorted.take n) (notSelf : p o = false)
    (later : ∀ y, le o y → p y = false) : sorted.countP p < n := by
  obtain ⟨u, v, split⟩ := List.append_of_mem ho
  have whole : sorted = u ++ o :: (v ++ sorted.drop n) := by
    rw [← List.cons_append, ← List.append_assoc, ← split, List.take_append_drop]
  have after : (v ++ sorted.drop n).countP p = 0 := by
    rw [whole, List.pairwise_append] at order
    refine List.countP_eq_zero.2 fun y hy => ?_
    rw [later y ((List.pairwise_cons.1 order.2.1).1 y hy)]
    exact Bool.false_ne_true
  have short : u.length < n := by
    have lengths := congrArg List.length split
    rw [List.length_append, List.length_cons, List.length_take] at lengths
    omega
  have count : sorted.countP p = u.countP p := by
    rw [whole, List.countP_append, List.countP_cons, after, notSelf]
    rfl
  exact count ▸ (List.countP_le_length.trans_lt short)

/-- Before a row that a limit cuts off come as many as the limit allows. -/
theorem Arranged.exists_dropped [DecidableRel le] (h : Arranged le (some n) rows kept) :
    ∃ dropped, (kept ++ dropped).Perm rows ∧ ∀ x ∈ dropped, n ≤ kept.countP fun y => le y x := by
  obtain ⟨sorted, perm, order, rfl⟩ := h
  dsimp only
  refine ⟨sorted.drop n, by rwa [List.take_append_drop], fun x hx => ?_⟩
  have before := (List.pairwise_append.1 ((List.take_append_drop n sorted).symm ▸ order)).2.2
  have all : (sorted.take n).countP (fun y => le y x) = (sorted.take n).length :=
    List.countP_eq_length.2 fun y hy => decide_eq_true (before y hy x hx)
  have full : n ≤ sorted.length := by
    by_contra short
    rw [List.drop_eq_nil_of_le (Nat.not_le.1 short).le] at hx
    exact absurd hx List.not_mem_nil
  rw [all, List.length_take_of_le full]

/-- What a query with a limit returns of the rows it keeps, it may return of all, if for each
row that was dropped there are `n` kept ones that may come before it. -/
theorem Arranged.of_kept [DecidableRel le] (total : ∀ r r', le r r' ∨ le r' r)
    (trans : ∀ r s t, le r s → le s t → le r t) (perm : (kept ++ dropped).Perm rows)
    (enough : ∀ x ∈ dropped, n ≤ kept.countP fun y => le y x)
    (h : Arranged le (some n) kept out) : Arranged le (some n) rows out := by
  obtain ⟨sorted, sortedPerm, order, rfl⟩ := h
  obtain ⟨rest, restPerm, restOrder⟩ := exists_sorted total trans (sorted.drop n ++ dropped)
  have before : ∀ o ∈ sorted.take n, ∀ x ∈ dropped, le o x := by
    intro o ho x hx
    by_contra wrong
    have few : (sorted.countP fun y => le y x) < n :=
      countP_lt_of_mem_take order ho (by simpa using wrong)
        fun y hy => decide_eq_false fun first => wrong (trans _ _ _ hy first)
    rw [sortedPerm.countP_eq] at few
    exact absurd (enough x hx) (Nat.not_le.2 few)
  have firstOrder := List.pairwise_append.1 ((List.take_append_drop n sorted).symm ▸ order)
  refine ⟨sorted.take n ++ rest, ?_, ?_, ?_⟩
  · refine ((restPerm.append_left _).trans ?_).trans perm
    rw [← List.append_assoc, List.take_append_drop]
    exact sortedPerm.append_right _
  · refine List.pairwise_append.2 ⟨firstOrder.1, restOrder, fun o ho x hx => ?_⟩
    rcases List.mem_append.1 (restPerm.subset hx) with later | left
    · exact firstOrder.2.2 o ho x later
    · exact before o ho x left
  · change sorted.take n = (sorted.take n ++ rest).take n
    by_cases long : n ≤ sorted.length
    · have exact_length : (sorted.take n).length = n := List.length_take_of_le long
      rw [List.take_append_of_le_length exact_length.ge, List.take_of_length_le exact_length.le]
    · -- nothing was dropped, and the kept rows are all there is
      have nothing : dropped = [] := by
        refine List.eq_nil_iff_forall_not_mem.2 fun x hx => long ?_
        exact (enough x hx).trans (List.countP_le_length.trans_eq sortedPerm.length_eq.symm)
      have short : sorted.length ≤ n := (Nat.not_le.1 long).le
      rw [nothing, List.append_nil, List.drop_eq_nil_of_le short] at restPerm
      rw [restPerm.eq_nil, List.append_nil, List.take_take, Nat.min_self]

/-- Rows that the order separates come in one order. -/
theorem Arranged.unique {limit : Option ℕ} {out' : List Row}
    (antisymm : ∀ r ∈ rows, ∀ r' ∈ rows, le r r' → le r' r → r = r')
    (h : Arranged le limit rows out) (h' : Arranged le limit rows out') : out = out' := by
  obtain ⟨sorted, perm, order, rfl⟩ := h
  obtain ⟨sorted', perm', order', rfl⟩ := h'
  have same : sorted = sorted' := (perm.trans perm'.symm).eq_of_pairwise
    (fun r r' hr hr' => antisymm r (perm.subset hr) r' (perm'.subset hr')) order order'
  rw [same]

end Limits

end Zodia.Lib
