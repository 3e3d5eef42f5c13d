import Zodia.Lib.Text

/-!
# Searching a sorted table

The partition point of a list, found by halving, and the block of entries of a sorted
table whose key starts with a given text.

## Main results

* `drop_partitionPoint` — halving finds the place where a plain scan stops.
* `takeWhile_dropWhile_eq_filter` — a block of a sorted list is found by passing over what lies
  before it and stopping at its end.
* `isPrefix_of_between` — the texts that start with `p` are an interval of the order of texts.
-/

namespace Zodia.Lib

variable {α : Type*}

/-! ## The partition point -/

/-- Halve the part that is left, the `size` places from `base` on: if `p` holds in its middle, the
upper half is left, else the lower half. -/
def halve (p : ℕ → Bool) : ℕ → ℕ → ℕ → ℕ
  | 0, base, _ => base
  | fuel + 1, base, size =>
    if size ≤ 1 then base
    else
      let half := size / 2
      let mid := base + half
      halve p fuel (if p mid then mid else base) (size - half)

/-- The number of entries at the front of `l` that meet `p`, if all that do are at the front
(`slice::partition_point`). -/
def partitionPoint (p : α → Bool) (l : List α) : ℕ :=
  let holds (i : ℕ) : Bool := l[i]?.any p
  if l.length = 0 then 0
  else
    let base := halve holds l.length 0 l.length
    if holds base then base + 1 else base

/-- What halving keeps: `p` holds at `base` unless it is the start, and nowhere after the part
that is left. -/
structure Halved (p : ℕ → Bool) (n base size : ℕ) : Prop where
  nonempty : 1 ≤ size
  inside : base + size ≤ n
  below : base ≠ 0 → p base
  above : ∀ i, base + size ≤ i → p i = false

theorem Halved.step {p : ℕ → Bool} {n base size : ℕ} (front : ∀ i j, i ≤ j → p j → p i)
    (h : Halved p n base size) (more : ¬ size ≤ 1) :
    Halved p n (if p (base + size / 2) then base + size / 2 else base) (size - size / 2) := by
  obtain ⟨-, inside, below, above⟩ := h
  split_ifs with mid
  · exact ⟨by omega, by omega, fun _ => mid, fun i hi => above i (by omega)⟩
  · refine ⟨by omega, by omega, below, fun i hi => ?_⟩
    have later : base + size / 2 ≤ i := by omega
    exact eq_false_of_ne_true fun holds => mid (front _ _ later holds)

/-- Halving ends with one place. -/
theorem Halved.halve {p : ℕ → Bool} {n fuel base size : ℕ} (front : ∀ i j, i ≤ j → p j → p i)
    (h : Halved p n base size) (enough : size ≤ fuel) : Halved p n (halve p fuel base size) 1 := by
  induction fuel generalizing base size with
  | zero =>
    have := h.nonempty
    omega
  | succ fuel ih =>
    rw [Lib.halve]
    split_ifs with one
    · have last : size = 1 := by have := h.nonempty; omega
      exact last ▸ h
    · exact ih (h.step front one) (by omega)

theorem dropWhile_eq_drop {p : α → Bool} {l : List α} {k : ℕ} (front : ∀ a ∈ l.take k, p a)
    (stop : ∀ a, l[k]? = some a → p a = false) : l.dropWhile p = l.drop k := by
  induction l generalizing k with
  | nil => simp
  | cons a l ih =>
    cases k with
    | zero => simp [stop a rfl]
    | succ k =>
      have first : p a := front a (by simp)
      rw [List.dropWhile_cons_of_pos first, List.drop_succ_cons]
      exact ih (fun b hb => front b (by simp [hb])) fun b hb => stop b (by simpa using hb)

/-- Where the entries that meet `p` are all at the front, the partition point is where a scan for
the first other entry stops. -/
theorem drop_partitionPoint {p : α → Bool} {l : List α} (front : l.Pairwise fun a b => p b → p a) :
    l.drop (partitionPoint p l) = l.dropWhile p := by
  by_cases empty : l.length = 0
  · simp [List.length_eq_zero_iff.1 empty]
  set holds : ℕ → Bool := fun i => l[i]?.any p with holds_def
  have antitone : ∀ i j, i ≤ j → holds j → holds i := by
    intro i j le hj
    obtain ⟨b, hb, pb⟩ := Option.any_eq_true .. |>.1 hj
    obtain ⟨inside, rfl⟩ := List.getElem?_eq_some_iff.1 hb
    rcases le.eq_or_lt with rfl | lt
    · exact hj
    · have earlier := List.pairwise_iff_getElem.1 front i j (by omega) inside lt pb
      simp [holds_def, List.getElem?_eq_getElem (show i < l.length by omega), earlier]
  have start : Halved holds l.length 0 l.length :=
    ⟨by omega, by omega, fun ne => absurd rfl ne, fun i hi => by
      simp [holds_def, List.getElem?_eq_none (show l.length ≤ i by omega)]⟩
  have found := start.halve antitone le_rfl
  set base := halve holds l.length 0 l.length with base_def
  have point : partitionPoint p l = if holds base then base + 1 else base := by
    rw [partitionPoint, if_neg empty]
  have upTo : ∀ k, (∀ i < k, holds i) → ∀ a ∈ l.take k, p a := by
    intro k all a mem
    obtain ⟨i, hi, rfl⟩ := List.mem_iff_getElem.1 mem
    have short : i < k ∧ i < l.length := by simpa using hi
    have met := all i short.1
    simpa [holds_def, short.2] using met
  rw [point]
  split_ifs with here
  · refine (dropWhile_eq_drop (upTo _ fun i hi => antitone i base (by omega) here) ?_).symm
    intro a ha
    simpa [holds_def, ha] using found.above (base + 1) le_rfl
  · have first : base = 0 := by
      by_contra ne
      exact here (found.below ne)
    refine (dropWhile_eq_drop (upTo _ fun i hi => by omega) ?_).symm
    intro a ha
    simpa [holds_def, ha] using here

/-! ## A block of a sorted list -/

theorem takeWhile_eq_filter {p : α → Bool} {l : List α} (front : l.Pairwise fun a b => p b → p a) :
    l.takeWhile p = l.filter p := by
  induction l with
  | nil => rfl
  | cons a l ih =>
    obtain ⟨first, rest⟩ := List.pairwise_cons.1 front
    by_cases ha : p a
    · simp [ha, ih rest]
    · have none : l.filter p = [] := List.filter_eq_nil_iff.2 fun b hb pb => ha (first b hb pb)
      simp [ha, none]

/-- Where the entries before a block and the block itself are kept together by the order of a
list, passing over the former and stopping at the end of the latter finds the whole block. -/
theorem takeWhile_dropWhile_eq_filter {before block : α → Bool} {l : List α}
    (apart : ∀ a ∈ l, block a → before a = false)
    (front : l.Pairwise fun a b => before b → before a)
    (together : l.Pairwise fun a b => before a = false → block b → block a) :
    (l.dropWhile before).takeWhile block = l.filter block := by
  induction l with
  | nil => rfl
  | cons a l ih =>
    by_cases ha : before a
    · have other : block a = false :=
        eq_false_of_ne_true fun hb => absurd ha (by simp [apart a (by simp) hb])
      rw [List.dropWhile_cons_of_pos ha, List.filter_cons_of_neg (by simp [other])]
      exact ih (fun b hb => apart b (by simp [hb])) front.of_cons together.of_cons
    · rw [List.dropWhile_cons_of_neg ha]
      apply takeWhile_eq_filter
      have past : ∀ b ∈ a :: l, before b = false := by
        intro b hb
        rcases List.mem_cons.1 hb with rfl | later
        · simpa using ha
        · exact eq_false_of_ne_true fun early => ha (List.rel_of_pairwise_cons front later early)
      exact together.imp_of_mem fun hb _ keep => keep (past _ hb)

/-! ## The texts that start with a text -/

theorem textLe_of_isPrefix {p k : List Char} (start : p <+: k) : textLe p k := by
  induction p generalizing k with
  | nil => rfl
  | cons c p ih =>
    obtain ⟨rest, rfl⟩ := start
    simp [textLe, ih (List.prefix_append p rest)]

theorem textLe_trans {s t u : List Char} (st : textLe s t) (tu : textLe t u) : textLe s u := by
  induction s generalizing t u with
  | nil => rfl
  | cons c s ih =>
    cases t with
    | nil => cases st
    | cons d t =>
      cases u with
      | nil => cases tu
      | cons e u =>
        simp only [textLe, Bool.or_eq_true, Bool.and_eq_true, decide_eq_true_eq, beq_iff_eq] at *
        grind

/-- What lies between `p` and a text that starts with `p` starts with `p`. -/
theorem isPrefix_of_between {p k k' : List Char} (pk : textLe p k) (kk' : textLe k k')
    (start : p <+: k') : p <+: k := by
  induction p generalizing k k' with
  | nil => exact List.nil_prefix
  | cons c p ih =>
    obtain ⟨rest, rfl⟩ := start
    cases k with
    | nil => cases pk
    | cons d k =>
      simp only [textLe, List.cons_append, Bool.or_eq_true, Bool.and_eq_true, decide_eq_true_eq,
        beq_iff_eq] at pk kk'
      have same : c.toNat = d.toNat := by omega
      have tail := ih (pk.resolve_left same.not_lt).2 (kk'.resolve_left same.symm.not_lt).2
        (List.prefix_append p rest)
      rw [Char.toNat_inj.1 same, List.cons_prefix_cons]
      exact ⟨rfl, tail⟩

/-- In a table sorted by key, halving to the first key from `p` on and scanning to the first that
does not start with `p` yields all entries whose key starts with `p`. -/
theorem takeWhile_isPrefix_eq_filter {key : α → List Char} {l : List α}
    (sorted : l.Pairwise fun a b => textLe (key a) (key b)) (p : List Char) :
    (l.drop (partitionPoint (fun a => !textLe p (key a)) l)).takeWhile (p.isPrefixOf ∘ key) =
      l.filter (p.isPrefixOf ∘ key) := by
  have front : l.Pairwise fun a b => !textLe p (key b) → !textLe p (key a) := by
    refine sorted.imp fun {a b} le early => ?_
    by_contra late
    have reached := textLe_trans (by simpa using late) le
    simp [reached] at early
  rw [drop_partitionPoint front]
  apply takeWhile_dropWhile_eq_filter
  · intro a _ starts
    simp [textLe_of_isPrefix (List.isPrefixOf_iff_prefix.1 starts)]
  · exact front
  · refine sorted.imp fun {a b} le reached starts => ?_
    simp only [Function.comp_apply, List.isPrefixOf_iff_prefix] at starts ⊢
    exact isPrefix_of_between (by simpa using reached) le starts

end Zodia.Lib
