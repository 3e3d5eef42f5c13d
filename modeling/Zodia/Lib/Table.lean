import Mathlib.Data.List.Induction
import Mathlib.Data.List.Nodup
import Mathlib.Data.List.Perm.Basic
import Mathlib.Data.List.Sort

/-!
# Tables with a primary key

A table is the list of its rows in insertion order, no two of them with one
primary key. Inserting a row whose key is taken leaves the table as it is, an
update rewrites the rows that match and keeps their keys.

A query with an `ORDER BY` returns some arrangement of the matching rows that its
order allows: rows the order does not separate come in any order.

## Main definitions

* `Table`, `Table.find?`, `Table.insertOrIgnore`, `Table.upsert`, `Table.erase`,
  `Table.update`.
* `Arranged` — the arrangements a query may return.
* `SameUnder` — two tables hold the same rows as far as a projection sees.
-/

namespace Zodia.Lib

variable {Row Key α : Type*} {key : Row → Key}

/-- Rows in insertion order, with distinct primary keys. -/
structure Table (key : Row → Key) where
  rows : List Row
  nodup : (rows.map key).Nodup

namespace Table

instance : Membership Row (Table key) where
  mem t r := r ∈ t.rows

@[simp] theorem mem_rows {t : Table key} {r : Row} : r ∈ t.rows ↔ r ∈ t := Iff.rfl

def empty : Table key := ⟨[], by simp⟩

@[simp] theorem not_mem_empty (r : Row) : r ∉ (empty : Table key) := List.not_mem_nil

theorem eq_of_key {t : Table key} {r r' : Row} (hr : r ∈ t) (hr' : r' ∈ t)
    (h : key r = key r') : r = r' := List.inj_on_of_nodup_map t.nodup hr hr' h

theorem nodup_rows (t : Table key) : t.rows.Nodup := t.nodup.of_map

/-! ## Deletion -/

/-- `DELETE`: keep the rows for which `keep` holds. -/
def filter (t : Table key) (keep : Row → Bool) : Table key :=
  ⟨t.rows.filter keep, t.nodup.sublist (List.filter_sublist.map key)⟩

@[simp] theorem mem_filter {t : Table key} {keep : Row → Bool} {x : Row} :
    x ∈ t.filter keep ↔ x ∈ t ∧ keep x = true := List.mem_filter

theorem filter_eq_self {t : Table key} {keep : Row → Bool} (all : ∀ r ∈ t, keep r = true) :
    t.filter keep = t := by
  obtain ⟨rows, nodup⟩ := t
  simp only [filter, mk.injEq]
  exact List.filter_eq_self.2 all

theorem filter_congr {t : Table key} {keep keep' : Row → Bool}
    (same : ∀ r ∈ t, keep r = keep' r) : t.filter keep = t.filter keep' := by
  simp only [filter, mk.injEq]
  exact List.filter_congr same

/-! ## Lookup and insertion -/

section Lookup

variable [DecidableEq Key]

def find? (t : Table key) (k : Key) : Option Row := t.rows.find? fun r => key r = k

theorem find?_eq_some {t : Table key} {k : Key} {r : Row} :
    t.find? k = some r ↔ r ∈ t ∧ key r = k := by
  constructor
  · intro h
    exact ⟨List.mem_of_find?_eq_some h, by simpa using List.find?_some h⟩
  · rintro ⟨hr, rfl⟩
    cases h : t.find? (key r) with
    | none => exact absurd hr fun hr => by simpa using List.find?_eq_none.1 h r hr
    | some r' =>
      have hr' := List.mem_of_find?_eq_some h
      have same : key r' = key r := by simpa using List.find?_some h
      rw [eq_of_key hr' hr same]

theorem find?_eq_none {t : Table key} {k : Key} : t.find? k = none ↔ ∀ r ∈ t, key r ≠ k := by
  simp [find?, List.find?_eq_none]

theorem find?_isSome {t : Table key} {k : Key} : (t.find? k).isSome ↔ ∃ r ∈ t, key r = k := by
  simp [find?, List.find?_isSome]

/-- The rows of a key: one at most. -/
theorem filter_key (t : Table key) (k : Key) :
    t.rows.filter (fun r => key r = k) = (t.find? k).toList := by
  cases h : t.find? k with
  | none =>
    refine List.filter_eq_nil_iff.2 fun r hr => ?_
    simpa using find?_eq_none.1 h r hr
  | some r =>
    obtain ⟨hr, rfl⟩ := find?_eq_some.1 h
    refine List.perm_singleton.1 ?_
    refine (List.perm_ext_iff_of_nodup (t.nodup_rows.filter _) (List.nodup_singleton r)).2 ?_
    intro x
    rw [List.mem_filter, List.mem_singleton, decide_eq_true_eq]
    constructor
    · rintro ⟨hx, same⟩
      exact eq_of_key hx hr same
    · rintro rfl
      exact ⟨hr, rfl⟩

/-- `INSERT OR IGNORE`: the row is dropped when its key is taken. -/
def insertOrIgnore (t : Table key) (r : Row) : Table key :=
  if h : ∃ r' ∈ t.rows, key r' = key r then t
  else ⟨t.rows ++ [r], by
    have free : ∀ r' ∈ t.rows, key r' ≠ key r := fun r' hr' e => h ⟨r', hr', e⟩
    simpa [List.nodup_append, t.nodup] using free⟩

/-- Whether `insertOrIgnore` writes the row. -/
def Free (t : Table key) (k : Key) : Prop := ∀ r ∈ t, key r ≠ k

instance (t : Table key) (k : Key) : Decidable (t.Free k) :=
  inferInstanceAs (Decidable (∀ r ∈ t.rows, key r ≠ k))

theorem mem_insertOrIgnore {t : Table key} {r x : Row} :
    x ∈ t.insertOrIgnore r ↔ x ∈ t ∨ x = r ∧ t.Free (key r) := by
  unfold insertOrIgnore
  split
  · next taken =>
    obtain ⟨r', hr', same⟩ := taken
    have : ¬ t.Free (key r) := fun free => free r' hr' same
    simp [this]
  · next free =>
    have : t.Free (key r) := fun r' hr' same => free ⟨r', hr', same⟩
    change x ∈ t.rows ++ [r] ↔ _
    simp [this]

theorem rows_insertOrIgnore {t : Table key} {r : Row} (free : t.Free (key r)) :
    (t.insertOrIgnore r).rows = t.rows ++ [r] := by
  have new : ¬ ∃ r' ∈ t.rows, key r' = key r := fun ⟨r', hr', same⟩ => free r' hr' same
  rw [insertOrIgnore, dif_neg new]

theorem insertOrIgnore_of_taken {t : Table key} {r : Row} (taken : ¬ t.Free (key r)) :
    t.insertOrIgnore r = t := by
  refine dif_pos (Classical.byContradiction fun new => taken fun r' hr' same => ?_)
  exact new ⟨r', hr', same⟩

theorem find?_insertOrIgnore {t : Table key} {r : Row} (free : t.Free (key r)) (k : Key) :
    (t.insertOrIgnore r).find? k = if key r = k then some r else t.find? k := by
  rw [find?, rows_insertOrIgnore free, List.find?_append, ← find?]
  split_ifs with same
  · subst same
    rw [find?_eq_none.2 free]
    simp
  · simp [same]

/-- `INSERT OR REPLACE`, or the `insert` of a hash map. -/
def upsert (t : Table key) (r : Row) : Table key :=
  ⟨t.rows.filter (fun r' => key r' ≠ key r) ++ [r], by
    have old := t.nodup.sublist (List.filter_sublist (p := fun r' => key r' ≠ key r) |>.map key)
    rw [List.map_append, List.nodup_append]
    exact ⟨old, List.nodup_singleton _, by simp; grind⟩⟩

@[simp] theorem mem_upsert {t : Table key} {r x : Row} :
    x ∈ t.upsert r ↔ x ∈ t ∧ key x ≠ key r ∨ x = r := by
  change x ∈ t.rows.filter _ ++ [r] ↔ _
  simp

theorem find?_upsert (t : Table key) (r : Row) (k : Key) :
    (t.upsert r).find? k = if key r = k then some r else t.find? k := by
  split_ifs with hk
  · exact find?_eq_some.2 ⟨mem_upsert.2 (.inr rfl), hk⟩
  · cases h : t.find? k with
    | some r' =>
      obtain ⟨hr', rfl⟩ := find?_eq_some.1 h
      exact find?_eq_some.2 ⟨mem_upsert.2 (.inl ⟨hr', Ne.symm hk⟩), rfl⟩
    | none =>
      refine find?_eq_none.2 fun r' hr' => ?_
      rcases mem_upsert.1 hr' with ⟨old, -⟩ | rfl
      · exact find?_eq_none.1 h r' old
      · exact hk

/-! ### Many inserts -/

section Foldl

variable {f : α → Row} {es : List α} {t : Table key} {x : Row}

theorem mem_foldl_upsert (h : x ∈ es.foldl (fun t e => t.upsert (f e)) t) :
    x ∈ t ∨ ∃ e ∈ es, x = f e := by
  induction es using List.reverseRecOn with
  | nil => exact .inl h
  | append_singleton es e ih =>
    rw [List.foldl_append] at h
    rcases mem_upsert.1 h with ⟨old, -⟩ | rfl
    · rcases ih old with older | ⟨e', he', rfl⟩
      · exact .inl older
      · exact .inr ⟨e', List.mem_append_left _ he', rfl⟩
    · exact .inr ⟨e, by simp, rfl⟩

/-- Of the rows of one key the last is there. -/
theorem exists_mem_foldl_upsert (t : Table key) {k : Key} (h : ∃ e ∈ es, key (f e) = k) :
    ∃ e ∈ es, key (f e) = k ∧ f e ∈ es.foldl (fun t e => t.upsert (f e)) t := by
  induction es using List.reverseRecOn with
  | nil => exact absurd h (by simp)
  | append_singleton es last ih =>
    rw [List.foldl_append]
    by_cases hk : key (f last) = k
    · exact ⟨last, by simp, hk, mem_upsert.2 (.inr rfl)⟩
    · obtain ⟨e, he, rfl⟩ := h
      have earlier : e ∈ es := by
        rcases List.mem_append.1 he with old | new
        · exact old
        · exact absurd (congrArg (fun e => key (f e)) (List.mem_singleton.1 new).symm) hk
      obtain ⟨e', he', same, hmem⟩ := ih ⟨e, earlier, rfl⟩
      refine ⟨e', List.mem_append_left _ he', same, mem_upsert.2 (.inl ⟨hmem, ?_⟩)⟩
      exact fun clash => hk (clash.symm.trans same)

/-- Inserts of distinct keys keep every row, in order. -/
theorem rows_foldl_upsert {rows : List Row} (nodup : (rows.map key).Nodup) :
    (rows.foldl upsert (empty : Table key)).rows = rows := by
  induction rows using List.reverseRecOn with
  | nil => rfl
  | append_singleton rows r ih =>
    rw [List.map_append, List.nodup_append] at nodup
    obtain ⟨old, -, apart⟩ := nodup
    have fresh : ∀ r' ∈ rows, key r' ≠ key r := fun r' mem =>
      apart _ (List.mem_map_of_mem mem) _ (by simp)
    rw [List.foldl_append]
    change (rows.foldl upsert empty).rows.filter (fun r' => key r' ≠ key r) ++ [r] = rows ++ [r]
    rw [ih old, List.filter_eq_self.2 fun r' mem => by simpa using fresh r' mem]

theorem mem_foldl_insertOrIgnore :
    x ∈ es.foldl (fun t e => t.insertOrIgnore (f e)) t → x ∈ t ∨ ∃ e ∈ es, x = f e := by
  induction es generalizing t with
  | nil => exact .inl
  | cons e es ih =>
    intro h
    rcases ih h with old | ⟨e', he', rfl⟩
    · rcases mem_insertOrIgnore.1 old with older | ⟨rfl, -⟩
      · exact .inl older
      · exact .inr ⟨e, List.mem_cons_self, rfl⟩
    · exact .inr ⟨e', List.mem_cons_of_mem e he', rfl⟩

theorem foldl_insertOrIgnore_of_mem (h : x ∈ t) :
    x ∈ es.foldl (fun t e => t.insertOrIgnore (f e)) t := by
  induction es generalizing t with
  | nil => exact h
  | cons e es ih => exact ih (mem_insertOrIgnore.2 (.inl h))

end Foldl

/-- Looking up distinct keys yields the rows of these keys. -/
theorem filterMap_find?_perm (t : Table key) {ks : List Key} (distinct : ks.Nodup) :
    (ks.filterMap t.find?).Perm (t.rows.filter fun r => key r ∈ ks) := by
  have found : (ks.filterMap t.find?).Nodup := by
    refine distinct.filterMap fun k k' r hk hk' => ?_
    rw [← (find?_eq_some.1 hk).2, ← (find?_eq_some.1 hk').2]
  refine (List.perm_ext_iff_of_nodup found (t.nodup_rows.filter _)).2 fun r => ?_
  rw [List.mem_filterMap, List.mem_filter, decide_eq_true_eq]
  constructor
  · rintro ⟨k, hk, hr⟩
    obtain ⟨mem, rfl⟩ := find?_eq_some.1 hr
    exact ⟨mem, hk⟩
  · rintro ⟨mem, hk⟩
    exact ⟨key r, hk, find?_eq_some.2 ⟨mem, rfl⟩⟩

theorem find?_filter (t : Table key) (keep : Row → Bool) (k : Key) :
    (t.filter keep).find? k = (t.find? k).filter keep := by
  cases h : t.find? k with
  | none => exact find?_eq_none.2 fun r hr => find?_eq_none.1 h r (mem_filter.1 hr).1
  | some r =>
    obtain ⟨hr, same⟩ := find?_eq_some.1 h
    rw [Option.filter_some]
    split_ifs with kept
    · exact find?_eq_some.2 ⟨mem_filter.2 ⟨hr, kept⟩, same⟩
    · refine find?_eq_none.2 fun r' hr' same' => kept ?_
      rw [eq_of_key hr (mem_filter.1 hr').1 (same.trans same'.symm)]
      exact (mem_filter.1 hr').2

/-- Delete the row of a key. -/
def erase (t : Table key) (k : Key) : Table key := t.filter fun r => key r ≠ k

@[simp] theorem mem_erase {t : Table key} {k : Key} {x : Row} :
    x ∈ t.erase k ↔ x ∈ t ∧ key x ≠ k := by simp [erase]

theorem find?_erase (t : Table key) (k k' : Key) :
    (t.erase k).find? k' = if k = k' then none else t.find? k' := by
  split_ifs with hk
  · exact find?_eq_none.2 fun r hr same => (mem_erase.1 hr).2 (same.trans hk.symm)
  · cases h : t.find? k' with
    | some r =>
      obtain ⟨hr, rfl⟩ := find?_eq_some.1 h
      exact find?_eq_some.2 ⟨mem_erase.2 ⟨hr, Ne.symm hk⟩, rfl⟩
    | none => exact find?_eq_none.2 fun r hr => find?_eq_none.1 h r (mem_erase.1 hr).1

end Lookup

/-! ## Update -/

/-- `UPDATE`: rewrite every row, keeping the primary keys. -/
def update (t : Table key) (f : Row → Row) (keeps : ∀ r, key (f r) = key r) : Table key :=
  ⟨t.rows.map f, by
    have : key ∘ f = key := funext keeps
    simpa [this] using t.nodup⟩

@[simp] theorem mem_update {t : Table key} {f : Row → Row} {keeps : ∀ r, key (f r) = key r}
    {x : Row} : x ∈ t.update f keeps ↔ ∃ r ∈ t, f r = x := by
  change x ∈ t.rows.map f ↔ _
  simp

theorem find?_update [DecidableEq Key] (t : Table key) (f : Row → Row)
    (keeps : ∀ r, key (f r) = key r) (k : Key) :
    (t.update f keeps).find? k = (t.find? k).map f := by
  rw [find?, update, List.find?_map, find?]
  simp only [Function.comp_def, keeps]

/-- Rewrite the row of a key. -/
def modify [DecidableEq Key] (t : Table key) (k : Key) (f : Row → Row)
    (keeps : ∀ r, key (f r) = key r) : Table key :=
  t.update (fun r => if key r = k then f r else r) fun r => by split_ifs <;> simp [keeps]

theorem mem_modify [DecidableEq Key] {t : Table key} {k : Key} {f : Row → Row}
    {keeps : ∀ r, key (f r) = key r} {x : Row} :
    x ∈ t.modify k f keeps ↔ x ∈ t ∧ key x ≠ k ∨ ∃ r ∈ t, key r = k ∧ f r = x := by
  rw [modify, mem_update]
  constructor
  · rintro ⟨r, hr, rfl⟩
    split_ifs with hk
    · exact .inr ⟨r, hr, hk, rfl⟩
    · exact .inl ⟨hr, hk⟩
  · rintro (⟨hx, hk⟩ | ⟨r, hr, hk, rfl⟩)
    · exact ⟨x, hx, if_neg hk⟩
    · exact ⟨r, hr, if_pos hk⟩

theorem find?_modify [DecidableEq Key] (t : Table key) (k : Key) (f : Row → Row)
    (keeps : ∀ r, key (f r) = key r) (k' : Key) :
    (t.modify k f keeps).find? k' = if k = k' then (t.find? k').map f else t.find? k' := by
  cases h : t.find? k' with
  | some r =>
    obtain ⟨hr, rfl⟩ := find?_eq_some.1 h
    split_ifs with hk
    · exact find?_eq_some.2 ⟨mem_modify.2 (.inr ⟨r, hr, hk.symm, rfl⟩), keeps r⟩
    · exact find?_eq_some.2 ⟨mem_modify.2 (.inl ⟨hr, Ne.symm hk⟩), rfl⟩
  | none =>
    have absent := find?_eq_none.1 h
    have : (t.modify k f keeps).find? k' = none := by
      refine find?_eq_none.2 fun x hx => ?_
      rcases mem_modify.1 hx with ⟨hx, -⟩ | ⟨r, hr, -, rfl⟩
      · exact absent x hx
      · exact keeps r ▸ absent r hr
    simp [this]

/-- Writing a row outside of a selection leaves the selection as it is. -/
theorem filter_insertOrIgnore [DecidableEq Key] (t : Table key) {r : Row} {keep : Row → Bool}
    (out : keep r = false) : (t.insertOrIgnore r).rows.filter keep = t.rows.filter keep := by
  unfold insertOrIgnore
  split
  · rfl
  · rw [List.filter_append, List.filter_cons_of_neg (by simpa using out), List.filter_nil,
      List.append_nil]

theorem filter_modify [DecidableEq Key] (t : Table key) {k : Key} {f : Row → Row}
    (keeps : ∀ r, key (f r) = key r) {keep : Row → Bool}
    (out : ∀ r, key r = k → keep r = false ∧ keep (f r) = false) :
    (t.modify k f keeps).rows.filter keep = t.rows.filter keep := by
  have rows : ∀ rows : List Row,
      (rows.map fun r => if key r = k then f r else r).filter keep = rows.filter keep := by
    intro rows
    induction rows with
    | nil => rfl
    | cons r rows ih =>
      rw [List.map_cons, List.filter_cons, List.filter_cons, ih]
      split_ifs with hk <;> grind
  exact rows t.rows

end Table

/-! ## Queries -/

/-- `out` is the first `limit` rows of some arrangement of `rows` that `le` allows. -/
def Arranged (le : Row → Row → Prop) (limit : Option ℕ) (rows out : List Row) : Prop :=
  ∃ sorted, sorted.Perm rows ∧ sorted.Pairwise le ∧
    out = match limit with
      | none => sorted
      | some n => sorted.take n

theorem Arranged.subset {le : Row → Row → Prop} {limit : Option ℕ} {rows out : List Row}
    (h : Arranged le limit rows out) : out ⊆ rows := by
  obtain ⟨sorted, perm, -, rfl⟩ := h
  cases limit with
  | none => exact perm.subset
  | some n => exact fun r hr => perm.subset (List.mem_of_mem_take hr)

/-- Without a limit that cuts, a query returns every matching row. -/
theorem exists_arranged (le : Row → Row → Prop) (total : ∀ r r', le r r' ∨ le r' r)
    (trans : ∀ r s t, le r s → le s t → le r t) (rows : List Row) (limit : Option ℕ)
    (fits : ∀ n, limit = some n → rows.length ≤ n) :
    ∃ out, Arranged le limit rows out ∧ out.Perm rows := by
  classical
  have : Std.Total le := ⟨total⟩
  have : IsTrans Row le := ⟨trans⟩
  have perm := List.perm_insertionSort le rows
  refine ⟨rows.insertionSort le, ⟨_, perm, List.pairwise_insertionSort le rows, ?_⟩, perm⟩
  cases limit with
  | none => rfl
  | some n => exact (List.take_of_length_le (perm.length_eq.trans_le (fits n rfl))).symm

/-- The two tables hold the same rows as far as `f` sees. -/
def SameUnder (f : Row → α) (t t' : Table key) : Prop :=
  ∀ a, (∃ r ∈ t, f r = a) ↔ ∃ r ∈ t', f r = a

theorem SameUnder.symm {f : Row → α} {t t' : Table key} (h : SameUnder f t t') :
    SameUnder f t' t := fun a => (h a).symm

/-- Rows that match on one table have counterparts on the other, as many and in any
arrangement, when the query sees no more than `f` does and `f` sees the key. -/
theorem SameUnder.perm {f : Row → α} {t t' : Table key} (h : SameUnder f t t')
    (sees_key : ∀ r r', f r = f r' → key r = key r') {p : Row → Bool}
    (sees : ∀ r r', f r = f r' → p r = p r') :
    ((t.rows.filter p).map f).Perm ((t'.rows.filter p).map f) := by
  have nodup (t : Table key) : ((t.rows.filter p).map f).Nodup := by
    apply (List.nodup_map_iff_inj_on (t.nodup_rows.filter p)).2
    intro r hr r' hr' e
    exact Table.eq_of_key (List.mem_of_mem_filter hr) (List.mem_of_mem_filter hr') (sees_key r r' e)
  have half {t t' : Table key} (h : SameUnder f t t') {a : α}
      (ha : a ∈ (t.rows.filter p).map f) : a ∈ (t'.rows.filter p).map f := by
    obtain ⟨r, hr, rfl⟩ := List.mem_map.1 ha
    obtain ⟨r', hr', same⟩ := (h (f r)).1 ⟨r, List.mem_of_mem_filter hr, rfl⟩
    refine List.mem_map.2 ⟨r', List.mem_filter.2 ⟨hr', ?_⟩, same⟩
    rw [sees r' r same]
    exact (List.mem_filter.1 hr).2
  exact (List.perm_ext_iff_of_nodup (nodup t) (nodup t')).2 fun a => ⟨half h, half h.symm⟩

/-- An arrangement of `xs` carries over to any list with the same images. -/
theorem exists_perm_map {f : Row → α} {xs ys : List Row} (h : (xs.map f).Perm (ys.map f)) :
    ∃ zs : List Row, zs.Perm ys ∧ zs.map f = xs.map f := by
  induction xs generalizing ys with
  | nil =>
    have : ys = [] := by simpa using h
    exact ⟨[], by simp [this], rfl⟩
  | cons x xs ih =>
    have hx : f x ∈ ys.map f := h.subset (by simp)
    obtain ⟨y, hy, same⟩ := List.mem_map.1 hx
    obtain ⟨as, bs, rfl⟩ := List.append_of_mem hy
    have rest : (xs.map f).Perm ((as ++ bs).map f) := by
      have : (f x :: xs.map f).Perm (f x :: (as ++ bs).map f) := by
        refine h.trans ?_
        simp [same]
      exact (List.perm_cons _).1 this
    obtain ⟨zs, hzs, hmap⟩ := ih rest
    exact ⟨y :: zs, (hzs.cons y).trans List.perm_middle.symm, by simp [same, hmap]⟩

/-- What a query may return on one table, it may return on the other. -/
theorem SameUnder.arranged {f : Row → α} {t t' : Table key} (h : SameUnder f t t')
    (sees_key : ∀ r r', f r = f r' → key r = key r') {p : Row → Bool}
    (sees : ∀ r r', f r = f r' → p r = p r') (le : α → α → Prop) {limit : Option ℕ}
    {out : List Row} (ho : Arranged (fun r r' => le (f r) (f r')) limit (t.rows.filter p) out) :
    ∃ out', Arranged (fun r r' => le (f r) (f r')) limit (t'.rows.filter p) out' ∧
      out'.map f = out.map f := by
  obtain ⟨sorted, perm, order, rfl⟩ := ho
  obtain ⟨zs, hzs, hmap⟩ := exists_perm_map ((perm.map f).trans (h.perm sees_key sees))
  have order' : zs.Pairwise fun r r' => le (f r) (f r') := by
    have images : (sorted.map f).Pairwise le := List.pairwise_map.2 order
    rw [← hmap] at images
    exact List.pairwise_map.1 images
  refine ⟨_, ⟨zs, hzs, order', rfl⟩, ?_⟩
  cases limit with
  | none => exact hmap
  | some n => simp only [List.map_take, hmap]

end Zodia.Lib
