import Mathlib.Data.List.Induction

/-!
# Decimal numbers

Reading an unsigned number with a bound from its decimal digits, with an optional plus sign and
any number of leading zeros, as `str::parse` does.

## Main definitions

* `parseUnsigned` — the number that a text stands for, if it is below the bound.
* `Spells` — the texts that stand for a number.

## Main results

* `parseUnsigned_eq_some_iff` — what is read are the spellings of the numbers below the bound.
-/

namespace Zodia.Decimal

/-- Read one more digit, as long as the number stays below `bound`. -/
def digitStep (bound acc : ℕ) (c : Char) : Option ℕ :=
  if c.isDigit then
    let value := 10 * acc + (c.toNat - '0'.toNat)
    if value < bound then some value else none
  else none

/-- `str::parse` for an unsigned integer type of `bound` values. -/
def parseUnsigned (bound : ℕ) (s : List Char) : Option ℕ :=
  let digits := if s.head? = some '+' then s.tail else s
  if digits = [] then none else digits.foldlM (digitStep bound) 0

/-- A text for `n`: an optional plus sign, leading zeros and the digits of `n`. -/
def Spells (s : List Char) (n : ℕ) : Prop :=
  ∃ plus zeros, (plus = [] ∨ plus = ['+']) ∧
    s = plus ++ (List.replicate zeros '0' ++ Nat.toDigits 10 n)

theorem spells_toDigits (n : ℕ) : Spells (Nat.toDigits 10 n) n := ⟨[], 0, .inl rfl, rfl⟩

theorem toDigits_inj {m n : ℕ} (h : Nat.toDigits 10 m = Nat.toDigits 10 n) : m = n := by
  have read := congrArg (fun digits => Nat.ofDigitChars 10 digits 0) h
  simpa using read

variable {bound : ℕ}

/-! ## Digits -/

theorem le_ofDigitChars (digits : List Char) (acc : ℕ) : acc ≤ Nat.ofDigitChars 10 digits acc := by
  rw [Nat.ofDigitChars_eq_ofDigitChars_zero]
  have := Nat.le_mul_of_pos_left acc (Nat.pow_pos (n := digits.length) (by omega : 0 < 10))
  omega

theorem foldlM_digitStep_eq_some_iff {digits : List Char} {acc n : ℕ} (below : acc < bound) :
    digits.foldlM (digitStep bound) acc = some n ↔
      (∀ c ∈ digits, c.isDigit = true) ∧ Nat.ofDigitChars 10 digits acc = n ∧ n < bound := by
  induction digits generalizing acc with
  | nil =>
    simp only [List.foldlM_nil, Nat.ofDigitChars_nil, Option.pure_def, Option.some.injEq]
    grind
  | cons c digits ih =>
    rw [List.foldlM_cons, Nat.ofDigitChars_cons]
    have more := le_ofDigitChars digits (10 * acc + (c.toNat - '0'.toNat))
    by_cases digit : c.isDigit = true
    · by_cases room : 10 * acc + (c.toNat - '0'.toNat) < bound
      · rw [digitStep, if_pos digit, if_pos room, Option.bind_eq_bind, Option.bind_some, ih room]
        simp [digit]
      · rw [digitStep, if_pos digit, if_neg room]
        simp only [Option.bind_eq_bind, Option.bind_none, reduceCtorEq, false_iff]
        omega
    · rw [digitStep, if_neg digit]
      simp [digit]

theorem digitChar_of_isDigit {c : Char} (digit : c.isDigit = true) :
    c.toNat - '0'.toNat < 10 ∧ Nat.digitChar (c.toNat - '0'.toNat) = c := by
  have zero : '0'.toNat = 48 := rfl
  have range : 48 ≤ c.toNat ∧ c.toNat ≤ 57 := by
    rw [Char.isDigit, Bool.and_eq_true, decide_eq_true_eq, decide_eq_true_eq] at digit
    exact digit
  have small : c.toNat - '0'.toNat < 10 := by omega
  refine ⟨small, Char.toNat_inj.1 ?_⟩
  rw [Nat.toNat_digitChar_of_lt_ten small]
  omega

/-- Digits are leading zeros and the digits of their value. The induction is on the last one. -/
theorem eq_zeros_toDigits {digits : List Char} (ne : digits ≠ [])
    (all : ∀ c ∈ digits, c.isDigit = true) :
    ∃ zeros, digits =
      List.replicate zeros '0' ++ Nat.toDigits 10 (Nat.ofDigitChars 10 digits 0) := by
  induction digits using List.reverseRecOn with
  | nil => exact absurd rfl ne
  | append_singleton digits c ih =>
    obtain ⟨small, same⟩ := digitChar_of_isDigit (all c (by simp))
    rw [Nat.ofDigitChars_append, Nat.ofDigitChars_cons, Nat.ofDigitChars_nil]
    have last : Nat.toDigits 10 (c.toNat - '0'.toNat) = [c] := by
      rw [Nat.toDigits_of_lt_base small, same]
    rcases eq_or_ne digits [] with rfl | ne'
    · exact ⟨0, by rw [Nat.ofDigitChars_nil, Nat.mul_zero, Nat.zero_add, last]; rfl⟩
    · obtain ⟨zeros, before⟩ := ih ne' fun c mem => all c (by simp [mem])
      rcases Nat.eq_zero_or_pos (Nat.ofDigitChars 10 digits 0) with zero | pos
      · refine ⟨zeros + 1, ?_⟩
        rw [zero] at before ⊢
        rw [Nat.mul_zero, Nat.zero_add, last, before, Nat.toDigits_zero, List.replicate_succ']
      · refine ⟨zeros, ?_⟩
        rw [← Nat.toDigits_append_toDigits (by omega) pos small, last, ← List.append_assoc,
          ← before]

/-! ## Numbers -/

theorem ofDigitChars_zeros_toDigits (zeros n : ℕ) :
    Nat.ofDigitChars 10 (List.replicate zeros '0' ++ Nat.toDigits 10 n) 0 = n := by
  rw [Nat.ofDigitChars_append, Nat.ofDigitChars_replicate_zero, Nat.mul_zero,
    Nat.ofDigitChars_ten_toDigits]

theorem isDigit_of_mem_zeros_toDigits {zeros n : ℕ} {c : Char}
    (mem : c ∈ List.replicate zeros '0' ++ Nat.toDigits 10 n) : c.isDigit = true := by
  rcases List.mem_append.1 mem with zero | digit
  · rw [List.eq_of_mem_replicate zero]
    rfl
  · exact Nat.isDigit_of_mem_toDigits (by omega) (Nat.le_refl 10) digit

theorem read_eq_some_iff (pos : 0 < bound) {digits : List Char} {n : ℕ} :
    (if digits = [] then none else digits.foldlM (digitStep bound) 0) = some n ↔
      n < bound ∧ ∃ zeros, digits = List.replicate zeros '0' ++ Nat.toDigits 10 n := by
  split_ifs with empty
  · subst empty
    simp [Nat.toDigits_ne_nil]
  · rw [foldlM_digitStep_eq_some_iff pos]
    constructor
    · rintro ⟨all, rfl, below⟩
      exact ⟨below, eq_zeros_toDigits empty all⟩
    · rintro ⟨below, zeros, rfl⟩
      exact ⟨fun _ => isDigit_of_mem_zeros_toDigits, ofDigitChars_zeros_toDigits zeros n, below⟩

/-- **What is read are the spellings of the numbers below the bound.** -/
theorem parseUnsigned_eq_some_iff (pos : 0 < bound) {s : List Char} {n : ℕ} :
    parseUnsigned bound s = some n ↔ n < bound ∧ Spells s n := by
  have noPlus {zeros : ℕ} {tail : List Char} :
      List.replicate zeros '0' ++ Nat.toDigits 10 n ≠ '+' :: tail := by
    intro same
    have digit := isDigit_of_mem_zeros_toDigits (same ▸ List.mem_cons_self (a := '+'))
    exact absurd digit (by decide)
  rw [parseUnsigned, read_eq_some_iff pos]
  refine and_congr_right fun _ => ?_
  split_ifs with signed
  · obtain ⟨tail, rfl⟩ := List.head?_eq_some_iff.1 signed
    constructor
    · rintro ⟨zeros, same⟩
      exact ⟨['+'], zeros, .inr rfl, congrArg ('+' :: ·) same⟩
    · rintro ⟨plus, zeros, rfl | rfl, same⟩
      · exact absurd same.symm noPlus
      · exact ⟨zeros, List.tail_eq_of_cons_eq same⟩
  · constructor
    · rintro ⟨zeros, same⟩
      exact ⟨[], zeros, .inl rfl, same⟩
    · rintro ⟨plus, zeros, rfl | rfl, same⟩
      · exact ⟨zeros, same⟩
      · exact absurd (by rw [same]; rfl) signed

end Zodia.Decimal
