import Zodia.Core.Aspects

/-!
# Transit windows

How `core/src/transit.rs` finds the days around a moment on which a transit stays in orb: it
looks at the same time of day on the days before and after, ninety of them at most.

## Main definitions

* `transitWindow`.
* `IsRun` — how many samples in a row are in orb, counted up to a cap.
* `scanBack`, `scanAhead` — scans with any step and any cap.

## Main results

* `exists_isRun_scanBack`, `exists_isRun_scanAhead` — where a scan stops.
* `exists_isRun_transitWindow` — the window is made of whole days, as many as there are samples
  in orb.
* `transitWindow_is_run` — around a moment in orb it is the longest such run.
-/

namespace Zodia.Core

/-! ## Days -/

/-- The whole days between two moments. -/
theorem floor_sub_eq (x y : ℚ) :
    ⌊x - y⌋ = ⌊x⌋ - if Int.fract y ≤ Int.fract x then ⌊y⌋ else ⌊y⌋ + 1 := by
  have := Int.fract_nonneg x
  have := Int.fract_lt_one x
  have := Int.fract_nonneg y
  have := Int.fract_lt_one y
  have := Int.floor_add_fract x
  have := Int.floor_add_fract y
  rw [Int.floor_eq_iff]
  split_ifs with later
  · push_cast
    constructor <;> linarith
  · push_cast
    constructor <;> linarith

/-! ## The scan -/

section Scan

variable (inOrb : ℚ → Bool) (jdn : ℚ)

/-- Go back day by day from `t`, not more than ninety days before `jdn`. -/
def scanStart (t : ℚ) : ℚ :=
  let prev := t - 1
  if prev < jdn - 90 then jdn - 90
  else if !inOrb prev then t
  else scanStart prev
termination_by ⌊t - (jdn - 90)⌋.toNat
decreasing_by
  have before : ⌊t - 1 - (jdn - 90)⌋ = ⌊t - (jdn - 90)⌋ - 1 := by
    rw [← Int.floor_sub_one]
    congr 1
    ring
  have left : 0 ≤ ⌊t - 1 - (jdn - 90)⌋ := Int.floor_nonneg.2 (by linarith)
  omega

/-- Go on day by day from `t`, not more than ninety days after `jdn`. -/
def scanEnd (t : ℚ) : ℚ :=
  let next := t + 1
  if jdn + 90 < next then jdn + 90
  else if !inOrb next then t
  else scanEnd next
termination_by ⌊jdn + 90 - t⌋.toNat
decreasing_by
  have before : ⌊jdn + 90 - (t + 1)⌋ = ⌊jdn + 90 - t⌋ - 1 := by
    rw [← Int.floor_sub_one]
    congr 1
    ring
  have left : 0 ≤ ⌊jdn + 90 - (t + 1)⌋ := Int.floor_nonneg.2 (by linarith)
  omega

end Scan

/-- Whether the planet is in orb of the natal longitude at `t`. -/
def inOrbAt (lon : ℚ → Option ℚ) (natalLon : ℚ) (kind : AspectKind) (t : ℚ) : Bool :=
  match lon t with
  | some l => decide (WithinOrb kind (angularSeparation l natalLon))
  | none => false

def transitWindow (lon : ℚ → Option ℚ) (natalLon : ℚ) (kind : AspectKind) (jdn : ℚ) : ℚ × ℚ :=
  (scanStart (inOrbAt lon natalLon kind) jdn jdn, scanEnd (inOrbAt lon natalLon kind) jdn jdn)

/-! ## Runs of samples -/

/-- The samples `1, …, n` are good, and `n` is the cap or the next sample is bad. -/
structure IsRun (good : ℕ → Prop) (cap n : ℕ) : Prop where
  le : n ≤ cap
  holds : ∀ i, 0 < i → i ≤ n → good i
  ends : n = cap ∨ ¬ good (n + 1)

theorem IsRun.unique {good : ℕ → Prop} {cap n m : ℕ} (hn : IsRun good cap n)
    (hm : IsRun good cap m) : n = m := by
  have not_lt : ∀ {n m}, IsRun good cap n → IsRun good cap m → ¬ n < m := by
    intro n m hn hm lt
    have := hm.le
    rcases hn.ends with all | bad
    · omega
    · exact bad (hm.holds _ (by omega) lt)
  have := not_lt hn hm
  have := not_lt hm hn
  omega

/-! ## Scans with a step and a cap -/

/-- Go back from `t` step by step, not more than `cap` before `origin`. -/
def scanBack (good : ℚ → Bool) (origin step cap : ℚ) (pos : 0 < step) (t : ℚ) : ℚ :=
  let prev := t - step
  if cap < origin - prev then origin - cap
  else if !good prev then t
  else scanBack good origin step cap pos prev
termination_by ⌊(cap - (origin - t)) / step⌋.toNat
decreasing_by
  have before : (cap - (origin - (t - step))) / step = (cap - (origin - t)) / step - 1 := by
    rw [eq_sub_iff_add_eq, div_add_one pos.ne']
    congr 1
    ring
  have left : 0 ≤ ⌊(cap - (origin - (t - step))) / step⌋ :=
    Int.floor_nonneg.2 (div_nonneg (by linarith) pos.le)
  rw [before, Int.floor_sub_one] at left
  rw [before, Int.floor_sub_one]
  omega

/-- Go on from `t` step by step, not more than `cap` after `origin`. -/
def scanAhead (good : ℚ → Bool) (origin step cap : ℚ) (pos : 0 < step) (t : ℚ) : ℚ :=
  let next := t + step
  if cap < next - origin then origin + cap
  else if !good next then t
  else scanAhead good origin step cap pos next
termination_by ⌊(cap - (t - origin)) / step⌋.toNat
decreasing_by
  have before : (cap - (t + step - origin)) / step = (cap - (t - origin)) / step - 1 := by
    rw [eq_sub_iff_add_eq, div_add_one pos.ne']
    congr 1
    ring
  have left : 0 ≤ ⌊(cap - (t + step - origin)) / step⌋ :=
    Int.floor_nonneg.2 (div_nonneg (by linarith) pos.le)
  rw [before, Int.floor_sub_one] at left
  rw [before, Int.floor_sub_one]
  omega

section Steps

variable (good : ℚ → Bool) (origin : ℚ) {step cap : ℚ} (pos : 0 < step)

/-- Going on is going back in a mirror. -/
theorem scanAhead_eq_neg (t : ℚ) :
    scanAhead good origin step cap pos t =
      -scanBack (fun t => good (-t)) (-origin) step cap pos (-t) := by
  have next (t : ℚ) : -t - step = -(t + step) := by ring
  have far (t : ℚ) : -origin - -(t + step) = t + step - origin := by ring
  fun_induction scanAhead good origin step cap pos t with
  | case1 t next' late =>
    rw [scanBack, next, far, if_pos late]
    ring
  | case2 t next' late out =>
    rw [scanBack, next, far, if_neg late, neg_neg, if_pos out, neg_neg]
  | case3 t next' late out ih =>
    rw [ih]
    conv_rhs => rw [scanBack, next, far, if_neg late, neg_neg, if_neg out]

/-- A scan whose first `k` samples are known. The induction is on the samples that are left. -/
theorem exists_scanBack (room : 0 ≤ cap) {k : ℕ} (hk : k ≤ ⌊cap / step⌋₊)
    (before : ∀ i : ℕ, 0 < i → i ≤ k → good (origin - i * step) = true) :
    ∃ n, IsRun (fun i => good (origin - i * step) = true) ⌊cap / step⌋₊ n ∧
      scanBack good origin step cap pos (origin - k * step) =
        if n = ⌊cap / step⌋₊ then origin - cap else origin - n * step := by
  obtain ⟨left, hleft⟩ := Nat.exists_eq_add_of_le hk
  have prev : origin - k * step - step = origin - ((k + 1 : ℕ) : ℚ) * step := by
    push_cast
    ring
  have late : cap < origin - (origin - ((k + 1 : ℕ) : ℚ) * step) ↔ ⌊cap / step⌋₊ < k + 1 := by
    rw [Nat.floor_lt (div_nonneg room pos.le), div_lt_iff₀ pos, sub_sub_cancel]
  induction left generalizing k with
  | zero =>
    refine ⟨k, ⟨hk, before, .inl (by omega)⟩, ?_⟩
    rw [scanBack, prev, if_pos (late.2 (by omega)), if_pos (by omega)]
  | succ left ih =>
    rw [scanBack, prev, if_neg (mt late.1 (by omega))]
    by_cases next : good (origin - ((k + 1 : ℕ) : ℚ) * step) = true
    · rw [next, Bool.not_true, if_neg Bool.false_ne_true]
      refine ih (by omega) (fun i pos le => ?_) (by omega) (by push_cast; ring) ?_
      · rcases Nat.lt_or_eq_of_le le with lt | rfl
        · exact before i pos (by omega)
        · exact next
      · rw [Nat.floor_lt (div_nonneg room pos.le), div_lt_iff₀ pos, sub_sub_cancel]
    · rw [Bool.not_eq_true] at next
      rw [next, Bool.not_false, if_pos rfl]
      refine ⟨k, ⟨hk, before, .inr ?_⟩, by rw [if_neg (by omega)]⟩
      rw [next]
      exact Bool.false_ne_true

theorem exists_isRun_scanBack (room : 0 ≤ cap) :
    ∃ n, IsRun (fun i => good (origin - i * step) = true) ⌊cap / step⌋₊ n ∧
      scanBack good origin step cap pos origin =
        if n = ⌊cap / step⌋₊ then origin - cap else origin - n * step := by
  obtain ⟨n, run, stop⟩ := exists_scanBack good origin pos room (Nat.zero_le _) (by omega)
  rw [Nat.cast_zero, zero_mul, sub_zero] at stop
  exact ⟨n, run, stop⟩

theorem exists_isRun_scanAhead (room : 0 ≤ cap) :
    ∃ n, IsRun (fun i => good (origin + i * step) = true) ⌊cap / step⌋₊ n ∧
      scanAhead good origin step cap pos origin =
        if n = ⌊cap / step⌋₊ then origin + cap else origin + n * step := by
  have mirror (x : ℚ) : -(-origin - x) = origin + x := by ring
  obtain ⟨n, run, stop⟩ := exists_isRun_scanBack (fun t => good (-t)) (-origin) pos room
  simp only [mirror] at run
  refine ⟨n, run, ?_⟩
  rw [scanAhead_eq_neg, stop]
  split_ifs <;> exact mirror _

end Steps

/-! ## The window of a transit -/

theorem scanStart_eq_scanBack (inOrb : ℚ → Bool) (jdn t : ℚ) :
    scanStart inOrb jdn t = scanBack inOrb jdn 1 90 one_pos t := by
  have far (prev : ℚ) : 90 < jdn - prev ↔ prev < jdn - 90 := lt_sub_comm
  fun_induction scanStart inOrb jdn t with
  | case1 t prev late => rw [scanBack, if_pos ((far _).2 late)]
  | case2 t prev late out => rw [scanBack, if_neg (mt (far _).1 late), if_pos out]
  | case3 t prev late out ih =>
    rw [ih]
    conv_rhs => rw [scanBack, if_neg (mt (far _).1 late), if_neg out]

theorem scanEnd_eq_scanAhead (inOrb : ℚ → Bool) (jdn t : ℚ) :
    scanEnd inOrb jdn t = scanAhead inOrb jdn 1 90 one_pos t := by
  have far (next : ℚ) : 90 < next - jdn ↔ jdn + 90 < next := lt_sub_iff_add_lt'
  fun_induction scanEnd inOrb jdn t with
  | case1 t next late => rw [scanAhead, if_pos ((far _).2 late)]
  | case2 t next late out => rw [scanAhead, if_neg (mt (far _).1 late), if_pos out]
  | case3 t next late out ih =>
    rw [ih]
    conv_rhs => rw [scanAhead, if_neg (mt (far _).1 late), if_neg out]

/-- **The window is made of whole days around the moment, on each side as many as there are
samples in a row in orb, and ninety at most.** -/
theorem exists_isRun_transitWindow (lon : ℚ → Option ℚ) (natalLon : ℚ) (kind : AspectKind)
    (jdn : ℚ) :
    ∃ n m, IsRun (fun i => inOrbAt lon natalLon kind (jdn - i) = true) 90 n ∧
      IsRun (fun i => inOrbAt lon natalLon kind (jdn + i) = true) 90 m ∧
      transitWindow lon natalLon kind jdn = (jdn - n, jdn + m) := by
  have cap : ⌊(90 : ℚ) / 1⌋₊ = 90 := by
    rw [div_one]
    exact Nat.floor_ofNat 90
  obtain ⟨n, back, start⟩ := exists_isRun_scanBack (inOrbAt lon natalLon kind) jdn one_pos
    (by norm_num : (0 : ℚ) ≤ 90)
  obtain ⟨m, ahead, stop⟩ := exists_isRun_scanAhead (inOrbAt lon natalLon kind) jdn one_pos
    (by norm_num : (0 : ℚ) ≤ 90)
  simp only [cap, mul_one] at back start ahead stop
  refine ⟨n, m, back, ahead, ?_⟩
  rw [transitWindow, scanStart_eq_scanBack, scanEnd_eq_scanAhead, start, stop]
  congr 1
  · split_ifs with all
    · rw [all, Nat.cast_ofNat]
    · rfl
  · split_ifs with all
    · rw [all, Nat.cast_ofNat]
    · rfl

/-- **Around a moment in orb the window is the longest run of days in orb**, cut off ninety days
before and after. -/
theorem transitWindow_is_run (lon : ℚ → Option ℚ) (natalLon : ℚ) (kind : AspectKind) (jdn : ℚ)
    (now : inOrbAt lon natalLon kind jdn = true) :
    ∃ i j : ℕ, i ≤ 90 ∧ j ≤ 90 ∧
      transitWindow lon natalLon kind jdn = (jdn - i, jdn + j) ∧
      (∀ k : ℤ, -i ≤ k → k ≤ j → inOrbAt lon natalLon kind (jdn + k) = true) ∧
      (i = 90 ∨ inOrbAt lon natalLon kind (jdn - i - 1) = false) ∧
      (j = 90 ∨ inOrbAt lon natalLon kind (jdn + j + 1) = false) := by
  obtain ⟨i, j, back, ahead, window⟩ := exists_isRun_transitWindow lon natalLon kind jdn
  have before : jdn - i - 1 = jdn - ((i + 1 : ℕ) : ℚ) := by
    push_cast
    ring
  have after : jdn + j + 1 = jdn + ((j + 1 : ℕ) : ℚ) := by
    push_cast
    ring
  refine ⟨i, j, back.le, ahead.le, window, fun k low high => ?_, ?_, ?_⟩
  · rcases lt_trichotomy k 0 with neg | rfl | pos
    · obtain ⟨n, rfl⟩ : ∃ n : ℕ, k = -n := ⟨k.natAbs, by omega⟩
      have sample := back.holds n (by omega) (by omega)
      rwa [Int.cast_neg, Int.cast_natCast, ← sub_eq_add_neg]
    · rwa [Int.cast_zero, add_zero]
    · lift k to ℕ using pos.le
      have sample := ahead.holds k (by omega) (by omega)
      rwa [Int.cast_natCast]
  · rw [before, ← Bool.not_eq_true]
    exact back.ends
  · rw [after, ← Bool.not_eq_true]
    exact ahead.ends

/-- A planet that stands still on the natal longitude. -/
theorem transitWindow_is_run_still :
    ∃ i j : ℕ, i ≤ 90 ∧ j ≤ 90 ∧
      transitWindow (fun _ => some 0) 0 .conjunction 0 = ((0 : ℚ) - i, (0 : ℚ) + j) ∧
      (∀ k : ℤ, -i ≤ k → k ≤ j → inOrbAt (fun _ => some 0) 0 .conjunction (0 + k) = true) ∧
      (i = 90 ∨ inOrbAt (fun _ => some 0) 0 .conjunction (0 - i - 1) = false) ∧
      (j = 90 ∨ inOrbAt (fun _ => some 0) 0 .conjunction (0 + j + 1) = false) :=
  transitWindow_is_run (fun _ => some 0) 0 .conjunction 0 (by decide +kernel)

end Zodia.Core
