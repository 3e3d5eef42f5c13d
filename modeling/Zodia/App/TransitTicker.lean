import Mathlib.Data.Rat.Cast.Order
import Mathlib.Order.Interval.Set.UnorderedInterval
import Mathlib.Tactic.NormNum
import Zodia.Core.TransitWindow
import Zodia.Lib.Cbor
import Zodia.Store.Interpretations

/-!
# The cards of transits

Every ten minutes the ticker sends a feed item for every transit in orb, under an id that is the
hash of the day on which its window starts, and the feed drops items with an id it has. The
window starts a whole number of days before the tick, at the tick's time of day. So a transit
that came into orb at noon starts on one day for the ticks of the mornings and on another for
those of the afternoons, and after ninety days it starts a day later every day.

## Main definitions

* `Transit`, `Transit.activeEventId` — a transit, and the id of its item at a tick.
* `Transit.StartsOn` — the day on which the samples of a tick go out of orb.
* `Transit.OneCard` — one id for one pass, and another one for another pass.

## Main results

* `activeEventId_eq_iff` — when two ticks give the same id.
* `one_card_iff` — when two ticks of one pass do.
* `startsOn_of_pass` — the day on which a pass starts for a tick.
-/

namespace Zodia.App

open Lib Store Zodia.Core

variable {Digest : Type}

/-! ## Event ids -/

/-- What a cast to a signed number of 64 bits leaves. -/
def asI64 (n : ℤ) : ℤ := max (-2 ^ 63) (min n (2 ^ 63 - 1))

/-- A signed number in 8 bytes, the least significant one first. -/
def i64LeBytes (n : ℤ) : Bytes := (Value.bigEndian 8 (n % 2 ^ 64).toNat).reverse

def stableEventId (hash : Hash Digest) (domain key : String) (entered : Bool) (jdn : ℚ) : Digest :=
  let direction := if entered then "enter" else "leave"
  let jdnDay := asI64 ⌊jdn⌋
  hash (utf8 domain ++ utf8 key ++ utf8 direction ++ i64LeBytes jdnDay)

theorem i64LeBytes_asI64_inj {n m : ℤ} (hn : 0 ≤ n) (hn' : n < 2 ^ 63) (hm : 0 ≤ m)
    (hm' : m < 2 ^ 63) (same : i64LeBytes (asI64 n) = i64LeBytes (asI64 m)) : n = m := by
  have kept : ∀ {k : ℤ}, 0 ≤ k → k < 2 ^ 63 → asI64 k % 2 ^ 64 = k := by
    intro k low high
    rw [asI64, min_eq_left (by omega), max_eq_right (by omega)]
    omega
  have bytes := List.reverse_injective same
  rw [kept hn hn', kept hm hm'] at bytes
  have read : ∀ {k : ℕ}, k < 256 ^ 8 →
      Value.readBigEndian 8 (Value.bigEndian 8 k) = some (k, []) := by
    intro k small
    simpa using Value.readBigEndian_bigEndian 8 small []
  have whole := congrArg (Value.readBigEndian 8) bytes
  rw [read (by omega), read (by omega)] at whole
  have values := congrArg Prod.fst (Option.some.inj whole)
  omega

/-- For one key, the ids of two days differ. -/
theorem stableEventId_eq_iff {hash : Hash Digest} (hash_inj : Function.Injective hash)
    {domain key : String} {x y : ℚ} (hx : 0 ≤ ⌊x⌋) (hx' : ⌊x⌋ < 2 ^ 63) (hy : 0 ≤ ⌊y⌋)
    (hy' : ⌊y⌋ < 2 ^ 63) :
    stableEventId hash domain key true x = stableEventId hash domain key true y ↔ ⌊x⌋ = ⌊y⌋ := by
  constructor
  · intro same
    exact i64LeBytes_asI64_inj hx hx' hy hy' (List.append_cancel_left (hash_inj same))
  · intro same
    rw [stableEventId, stableEventId, same]

/-! ## Transits -/

/-- What a planet makes an aspect to: a natal longitude, or another planet of the sky. -/
inductive TransitTarget where
  | natal (lon : ℚ)
  | sky (lon : ℚ → Option ℚ)

/-- Where the target is. -/
def TransitTarget.lon : TransitTarget → ℚ → Option ℚ
  | natal lon, _ => some lon
  | sky lon, jdn => lon jdn

def TransitTarget.domain : TransitTarget → String
  | natal _ => "transit"
  | sky _ => "sky"

/-- A transit under its key, with the longitude of the planet as a function of time. -/
structure Transit where
  key : String
  moving : ℚ → Option ℚ
  kind : AspectKind
  target : TransitTarget

namespace Transit

/-- The window around a tick. The target is taken to stay where it is at the tick. -/
def window (tr : Transit) (now : ℚ) : Option (ℚ × ℚ) :=
  (tr.target.lon now).map fun target => transitWindow tr.moving target tr.kind now

/-- The id of the item that a tick sends for the transit, if it sends one. -/
def activeEventId (hash : Hash Digest) (tr : Transit) (now : ℚ) : Option Digest := do
  let lon ← tr.moving now
  let target ← tr.target.lon now
  let (kind, _orb) ← detectAspect (angularSeparation lon target)
  guard (kind = tr.kind)
  let (startJdn, _endJdn) ← tr.window now
  return stableEventId hash tr.target.domain tr.key true startJdn

/-- The transit is in orb. -/
def InOrb (tr : Transit) (t : ℚ) : Prop :=
  ∃ lon target, tr.moving t = some lon ∧ tr.target.lon t = some target ∧
    WithinOrb tr.kind (angularSeparation lon target)

/-- The planet is at `t` in orb of where the target is at the tick. -/
def Sampled (tr : Transit) (now t : ℚ) : Prop :=
  ∃ target, tr.target.lon now = some target ∧ inOrbAt tr.moving target tr.kind t = true

/-- Looked at each day at the time of the tick, the transit is in orb back to `day` and not on
the day before, or `day` is ninety days back. -/
def StartsOn (tr : Transit) (now : ℚ) (day : ℤ) : Prop :=
  ∃ n : ℕ, IsRun (fun i => tr.Sampled now (now - i)) 90 n ∧ day = ⌊now⌋ - n

variable {hash : Hash Digest} {tr : Transit} {now : ℚ}

theorem StartsOn.unique {day day' : ℤ} (h : tr.StartsOn now day) (h' : tr.StartsOn now day') :
    day = day' := by
  obtain ⟨n, run, rfl⟩ := h
  obtain ⟨n', run', rfl⟩ := h'
  rw [run.unique run']

/-- The window starts on that day, at most ninety days back. -/
theorem InOrb.exists_window (h : tr.InOrb now) :
    ∃ w, tr.window now = some w ∧ tr.StartsOn now ⌊w.1⌋ ∧ now - 90 ≤ w.1 ∧ w.1 ≤ now ∧
      now ≤ w.2 := by
  obtain ⟨-, target, -, here, -⟩ := h
  obtain ⟨n, m, back, -, scanned⟩ := exists_isRun_transitWindow tr.moving target tr.kind now
  have samples : ∀ t, tr.Sampled now t ↔ inOrbAt tr.moving target tr.kind t = true := by
    simp [Sampled, here]
  refine ⟨(now - n, now + m), by rw [window, here, Option.map_some, scanned], ⟨n, ?_, ?_⟩, ?_⟩
  · simpa only [samples] using back
  · exact Int.floor_sub_natCast now n
  · have few : (n : ℚ) ≤ 90 := by exact_mod_cast back.le
    have := n.cast_nonneg (α := ℚ)
    have := m.cast_nonneg (α := ℚ)
    exact ⟨by linarith, by linarith, by linarith⟩

theorem activeEventId_of_inOrb (h : tr.InOrb now) {w : ℚ × ℚ} (window : tr.window now = some w) :
    tr.activeEventId hash now = some (stableEventId hash tr.target.domain tr.key true w.1) := by
  obtain ⟨lon, target, moving, here, within⟩ := h
  have aspect := detectAspect_eq_some.2 ⟨within, rfl⟩
  simp [activeEventId, moving, here, aspect, window]

theorem inOrb_of_activeEventId {id : Digest} (h : tr.activeEventId hash now = some id) :
    tr.InOrb now := by
  simp only [activeEventId, Option.bind_eq_bind, Option.bind_eq_some_iff,
    Option.guard_eq_some'] at h
  obtain ⟨lon, moving, target, here, ⟨kind, orb⟩, aspect, -, same, -⟩ := h
  dsimp only at same
  exact ⟨lon, target, moving, here, same ▸ (detectAspect_eq_some.1 aspect).1⟩

end Transit

/-! ## Ticks -/

/-- A clock reading: seconds since the epoch, of which 64 bits hold the whole ones. -/
structure Tick where
  secs : ℚ
  nonneg : 0 ≤ secs
  lt : secs < 2 ^ 64

def Tick.jdn (t : Tick) : ℚ := t.secs / 86400 + 2440587.5

theorem Tick.jdn_bounds (t : Tick) : 2440587.5 ≤ t.jdn ∧ t.jdn < 2 ^ 62 := by
  have := t.nonneg
  have := t.lt
  rw [Tick.jdn]
  constructor <;> linarith

namespace Transit

variable {hash : Hash Digest} {tr : Transit} {t t' : Tick}

/-- The start of a window is a day that fits into 64 bits. -/
theorem floor_bounds {x : ℚ} (low : t.jdn - 90 ≤ x) (high : x ≤ t.jdn) :
    0 ≤ ⌊x⌋ ∧ ⌊x⌋ < 2 ^ 63 := by
  obtain ⟨after, before⟩ := t.jdn_bounds
  refine ⟨Int.floor_nonneg.2 (by linarith), Int.floor_lt.2 ?_⟩
  push_cast
  linarith

/-- Two ticks with the transit in orb give the same id exactly when it starts on a common day. -/
theorem activeEventId_eq_iff (hash_inj : Function.Injective hash) (h : tr.InOrb t.jdn)
    (h' : tr.InOrb t'.jdn) :
    tr.activeEventId hash t.jdn = tr.activeEventId hash t'.jdn ↔
      ∃ day, tr.StartsOn t.jdn day ∧ tr.StartsOn t'.jdn day := by
  obtain ⟨w, window, starts, low, high, -⟩ := h.exists_window
  obtain ⟨w', window', starts', low', high', -⟩ := h'.exists_window
  obtain ⟨first, last⟩ := floor_bounds low high
  obtain ⟨first', last'⟩ := floor_bounds low' high'
  rw [activeEventId_of_inOrb h window, activeEventId_of_inOrb h' window', Option.some_inj,
    stableEventId_eq_iff hash_inj first last first' last']
  constructor
  · intro same
    exact ⟨_, starts, same ▸ starts'⟩
  · rintro ⟨day, at_day, at_day'⟩
    rw [starts.unique at_day, starts'.unique at_day']

/-- What the ids of two ticks promise. -/
structure OneCard (hash : Hash Digest) (tr : Transit) (t t' : Tick) : Prop where
  /-- One pass has one id. -/
  same : (∀ x ∈ Set.uIcc t.jdn t'.jdn, tr.InOrb x) →
    tr.activeEventId hash t.jdn = tr.activeEventId hash t'.jdn
  /-- Passes with a day out of orb between their windows have two. -/
  different : ∀ w w', tr.window t.jdn = some w → tr.window t'.jdn = some w' →
    ∀ x, w.2 ≤ x → x + 1 ≤ w'.1 → (∀ y ∈ Set.Icc x (x + 1), ¬ tr.InOrb y) →
      ∀ id id', tr.activeEventId hash t.jdn = some id → tr.activeEventId hash t'.jdn = some id' →
        id ≠ id'

/-- **Two ticks keep the promise exactly when the transit does not stay in orb between them or
starts on a common day for both.** -/
theorem one_card_iff (hash_inj : Function.Injective hash) (tr : Transit) (t t' : Tick) :
    OneCard hash tr t t' ↔
      ((∀ x ∈ Set.uIcc t.jdn t'.jdn, tr.InOrb x) →
        ∃ day, tr.StartsOn t.jdn day ∧ tr.StartsOn t'.jdn day) := by
  constructor
  · intro h stays
    exact (activeEventId_eq_iff hash_inj (stays _ Set.left_mem_uIcc)
      (stays _ Set.right_mem_uIcc)).1 (h.same stays)
  · intro common
    refine ⟨fun stays => ?_, ?_⟩
    · exact (activeEventId_eq_iff hash_inj (stays _ Set.left_mem_uIcc)
        (stays _ Set.right_mem_uIcc)).2 (common stays)
    · rintro w w' window window' x after before - i i' sent sent' rfl
      have h := inOrb_of_activeEventId sent
      have h' := inOrb_of_activeEventId sent'
      obtain ⟨day, starts, starts'⟩ :=
        (activeEventId_eq_iff hash_inj h h').1 (sent.trans sent'.symm)
      obtain ⟨v, known, first, -, low, high⟩ := h.exists_window
      obtain ⟨v', known', first', -⟩ := h'.exists_window
      obtain rfl := Option.some.inj (known.symm.trans window)
      obtain rfl := Option.some.inj (known'.symm.trans window')
      have later : ⌊v.1 + 1⌋ ≤ ⌊v'.1⌋ := Int.floor_le_floor (by linarith)
      rw [Int.floor_add_one, first.unique starts, first'.unique starts'] at later
      omega

/-- A natal target stays where it is. -/
theorem sampled_iff_inOrb {now x natalLon : ℚ} (natal : tr.target = .natal natalLon) :
    tr.Sampled now x ↔ tr.InOrb x := by
  rw [Sampled, InOrb, natal]
  cases moving : tr.moving x <;> simp [TransitTarget.lon, inOrbAt, moving]

/-- A pass over a natal longitude that began at `e`, out of orb for a day before, starts for a
tick of its first ninety days on the day of `e` or on the next one: it depends on whether the
tick's time of day is that of `e` or later. -/
theorem startsOn_of_pass {now natalLon e : ℚ} (natal : tr.target = .natal natalLon)
    (after : e ≤ now) (recent : now < e + 91) (stays : ∀ x, e ≤ x → x ≤ now → tr.InOrb x)
    (out : ∀ x, e - 1 ≤ x → x < e → ¬ tr.InOrb x) :
    tr.StartsOn now (if Int.fract e ≤ Int.fract now then ⌊e⌋ else ⌊e⌋ + 1) := by
  obtain ⟨n, days⟩ := Int.eq_ofNat_of_zero_le (Int.floor_nonneg.2 (sub_nonneg.2 after))
  obtain ⟨low, high⟩ := Int.floor_eq_iff.1 days
  rw [Int.cast_natCast] at low high
  refine ⟨n, ⟨?_, fun i pos le => ?_, .inr ?_⟩, ?_⟩
  · have few : (n : ℚ) < 91 := by linarith
    have : n < 91 := by exact_mod_cast few
    omega
  · have back : (i : ℚ) ≤ n := by exact_mod_cast le
    have : (0 : ℚ) ≤ i := i.cast_nonneg
    exact (sampled_iff_inOrb natal).2 (stays _ (by linarith) (by linarith))
  · rw [sampled_iff_inOrb natal]
    push_cast
    exact out _ (by linarith) (by linarith)
  · rw [floor_sub_eq] at days
    omega

end Transit

/-! ### A sun over a natal sun -/

/-- The sun moves a degree a day, and is exact on the natal sun at 2460008.5. -/
def sunReturn : Transit where
  key := "transit:sun_conjunction_sun"
  moving t := some (t - 2460008.5)
  kind := .conjunction
  target := .natal 0

theorem inOrb_sunReturn {t : ℚ} (low : 2459990 ≤ t) (high : t ≤ 2460008.5) :
    sunReturn.InOrb t ↔ 2460000.5 ≤ t := by
  have ahead : angularSeparation (t - 2460008.5) 0 = 2460008.5 - t := by
    rw [angularSeparation_of_ahead (by linarith) (by linarith)]
    ring
  have within : WithinOrb .conjunction (angularSeparation (t - 2460008.5) 0) ↔
      2460000.5 ≤ t := by
    rw [WithinOrb, ahead, abs_le]
    simp only [AspectKind.angle, AspectKind.defaultOrb]
    constructor
    · rintro ⟨-, near⟩
      linarith
    · intro later
      exact ⟨by linarith, by linarith⟩
  rw [← within]
  constructor
  · rintro ⟨lon, target, moving, here, h⟩
    obtain rfl := Option.some.inj moving
    obtain rfl := Option.some.inj here
    exact h
  · intro h
    exact ⟨_, _, rfl, rfl, h⟩

/-- Two ticks on the third day of the pass, half a day apart. -/
def eveningTick : Tick := ⟨1677516480, by norm_num, by norm_num⟩
def morningTick : Tick := ⟨1677559680, by norm_num, by norm_num⟩

theorem eveningTick_jdn : eveningTick.jdn = 2460003.2 := by norm_num [Tick.jdn, eveningTick]
theorem morningTick_jdn : morningTick.jdn = 2460003.7 := by norm_num [Tick.jdn, morningTick]

/-- The pass begins at 2460000.5. -/
theorem startsOn_sunReturn {now : ℚ} (after : 2460000.5 ≤ now) (before : now ≤ 2460008.5) :
    sunReturn.StartsOn now
      (if Int.fract (2460000.5 : ℚ) ≤ Int.fract now then ⌊(2460000.5 : ℚ)⌋
        else ⌊(2460000.5 : ℚ)⌋ + 1) := by
  refine Transit.startsOn_of_pass rfl after (by linarith) (fun x low high => ?_)
    fun x low high => ?_
  · exact (inOrb_sunReturn (by linarith) (by linarith)).2 low
  · rw [inOrb_sunReturn (by linarith) (by linarith)]
    exact not_le.2 high

theorem stays_sunReturn : ∀ x ∈ Set.uIcc eveningTick.jdn morningTick.jdn, sunReturn.InOrb x := by
  intro x hx
  rw [eveningTick_jdn, morningTick_jdn, Set.uIcc_of_le (by norm_num)] at hx
  exact (inOrb_sunReturn (by linarith [hx.1]) (by linarith [hx.2])).2 (by linarith [hx.1])

theorem one_card_iff_sunReturn :
    Transit.OneCard id sunReturn eveningTick morningTick ↔
      ((∀ x ∈ Set.uIcc eveningTick.jdn morningTick.jdn, sunReturn.InOrb x) →
        ∃ day, sunReturn.StartsOn eveningTick.jdn day ∧ sunReturn.StartsOn morningTick.jdn day) :=
  Transit.one_card_iff Function.injective_id sunReturn eveningTick morningTick

/-- The sun stays in orb from evening to morning, and there are two cards. -/
theorem sunReturn_two_cards : ¬ Transit.OneCard id sunReturn eveningTick morningTick := by
  intro h
  have evening : sunReturn.InOrb eveningTick.jdn := stays_sunReturn _ Set.left_mem_uIcc
  have morning : sunReturn.InOrb morningTick.jdn := stays_sunReturn _ Set.right_mem_uIcc
  obtain ⟨day, starts, starts'⟩ :=
    (Transit.activeEventId_eq_iff Function.injective_id evening morning).1 (h.same stays_sunReturn)
  rw [eveningTick_jdn] at starts
  rw [morningTick_jdn] at starts'
  have first := starts.unique (startsOn_sunReturn (by norm_num) (by norm_num))
  have second := starts'.unique (startsOn_sunReturn (by norm_num) (by norm_num))
  have entered : Int.fract (2460000.5 : ℚ) = 0.5 := by norm_num
  have at_evening : Int.fract (2460003.2 : ℚ) = 0.2 := by norm_num
  have at_morning : Int.fract (2460003.7 : ℚ) = 0.7 := by norm_num
  rw [entered, at_evening, if_neg (by norm_num)] at first
  rw [entered, at_morning, if_pos (by norm_num)] at second
  omega

end Zodia.App
