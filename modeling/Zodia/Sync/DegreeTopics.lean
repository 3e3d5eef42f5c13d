import Mathlib.Data.Finset.Insert
import Mathlib.Tactic.FieldSimp
import Mathlib.Tactic.Ring
import Zodia.Core.Aspects
import Zodia.Sync.Network

/-!
# Degree topics

A peer opens the topics of the 5° buckets that its personal planets and their aspects fall
into, so that it meets the peers whose planets are there. A bucket has a border, and two planets
on its two sides are in no bucket together, however near they are.

## Main definitions

* `degreeBucket`, `topicKeysForChart`.
* `InAspect` — a major aspect of at most 5° between two charts.
* `SameSixth` — what the buckets tell of two charts.

## Main results

* `shares_topic_iff` — two charts share a topic exactly when they are in a same sixth.
* `shared_degree_topics_iff` — when charts in aspect do.
-/

namespace Zodia.Sync

open Lib Zodia.Core

variable {Digest Args : Type}

/-! ## Topics of a chart -/

/-- `BUCKET_DEG` -/
def bucketDeg : ℚ := 5

/-- `PERSONAL_PLANETS` -/
def personalPlanets : List Planet := [.sun, .moon, .mercury, .venus, .mars]

/-- `ASPECT_OFFSETS` -/
def aspectOffsets : List ℚ := [0, 180, 90, 270, 120, 240]

/-- The bucket of a longitude. -/
def degreeBucket (lon : ℚ) : UInt32 := UInt32.ofNat ⌊remEuclid lon 360 / bucketDeg⌋.toNat

/-- The buckets seen so far, and the topics of them. -/
structure DegreeTopics (Digest : Type) where
  seen : Finset UInt32
  keys : List Digest

section Topics

variable (H : Hashes Digest Args)

/-- Add the topic of a bucket that was not seen. -/
def DegreeTopics.subscribe (t : DegreeTopics Digest) (bucket : UInt32) : DegreeTopics Digest :=
  if bucket ∈ t.seen then t
  else ⟨insert bucket t.seen, t.keys ++ [topicKeyForDegree H bucket]⟩

/-- Add the topics of a chart, planet by planet and offset by offset. -/
def chartTopics (positions : PlanetPositions) : DegreeTopics Digest :=
  personalPlanets.foldl (fun (t : DegreeTopics Digest) planet =>
    match positions planet with
    | none => t
    | some lon =>
      aspectOffsets.foldl (fun t offset => t.subscribe H (degreeBucket (lon + offset))) t)
    ⟨∅, []⟩

def topicKeysForChart (positions : PlanetPositions) : List Digest :=
  (chartTopics H positions).keys

/-- The buckets of a chart, in the order they are looked at. -/
def bucketsOfChart (positions : PlanetPositions) : List UInt32 :=
  personalPlanets.flatMap fun planet =>
    match positions planet with
    | none => []
    | some lon => aspectOffsets.map fun offset => degreeBucket (lon + offset)

theorem chartTopics_eq (positions : PlanetPositions) : chartTopics H positions =
    (bucketsOfChart positions).foldl (fun t bucket => t.subscribe H bucket) ⟨∅, []⟩ := by
  rw [chartTopics, bucketsOfChart, List.foldl_flatMap]
  congr 1
  funext t planet
  cases positions planet with
  | none => rfl
  | some lon => rw [List.foldl_map]

/-- The topics are those of the buckets that were looked at, each once. -/
structure DegreeTopics.Of (t : DegreeTopics Digest) (buckets : List UInt32) : Prop where
  mem_seen : ∀ bucket, bucket ∈ t.seen ↔ bucket ∈ buckets
  mem_keys : ∀ k, k ∈ t.keys ↔ ∃ bucket ∈ buckets, topicKeyForDegree H bucket = k
  nodup : t.keys.Nodup
  length_le : t.keys.length ≤ buckets.length

variable {H} (hash_inj : Function.Injective H.hash)
include hash_inj

theorem DegreeTopics.Of.subscribe {t : DegreeTopics Digest} {buckets : List UInt32}
    (h : t.Of H buckets) (bucket : UInt32) : (t.subscribe H bucket).Of H (buckets ++ [bucket]) := by
  unfold DegreeTopics.subscribe
  split_ifs with seen
  · have old := (h.mem_seen bucket).1 seen
    refine ⟨fun b => ?_, fun k => ?_, h.nodup, ?_⟩
    · grind [h.mem_seen b]
    · grind [h.mem_keys k]
    · rw [List.length_append]
      exact h.length_le.trans (Nat.le_add_right _ _)
  · have new : bucket ∉ buckets := fun old => seen ((h.mem_seen bucket).2 old)
    refine ⟨fun b => ?_, fun k => ?_, ?_, ?_⟩
    · grind [h.mem_seen b]
    · grind [h.mem_keys k]
    · refine List.nodup_append.2 ⟨h.nodup, List.nodup_singleton _, fun k hk k' hk' same => ?_⟩
      obtain ⟨b, hb, rfl⟩ := (h.mem_keys k).1 hk
      rw [List.mem_singleton.1 hk'] at same
      exact new (topicKeyForDegree_injective hash_inj same ▸ hb)
    · simpa using h.length_le

theorem chartTopics_of (positions : PlanetPositions) :
    (chartTopics H positions).Of H (bucketsOfChart positions) := by
  rw [chartTopics_eq]
  induction bucketsOfChart positions using List.reverseRecOn with
  | nil => exact ⟨by simp, by simp, List.nodup_nil, Nat.le_refl _⟩
  | append_singleton buckets bucket ih =>
    rw [List.foldl_append]
    exact ih.subscribe hash_inj bucket

end Topics

/-! ## Buckets -/

/-- There are 72 buckets around the circle. -/
theorem toNat_degreeBucket (lon : ℚ) : ((degreeBucket lon).toNat : ℤ) = ⌊lon / 5⌋ % 72 := by
  have turns : ⌊lon / 360⌋ = ⌊lon / 5⌋ / 72 := by
    have twice := Int.floor_div_natCast (lon / 5) 72
    have whole : lon / 5 / (72 : ℕ) = lon / 360 := by
      push_cast
      ring
    rwa [whole] at twice
  have bucket : ⌊remEuclid lon 360 / bucketDeg⌋ = ⌊lon / 5⌋ % 72 := by
    have shifted : remEuclid lon 360 / bucketDeg = lon / 5 - ((72 * ⌊lon / 360⌋ : ℤ) : ℚ) := by
      rw [remEuclid, bucketDeg]
      push_cast
      ring
    rw [shifted, Int.floor_sub_intCast, turns, Int.emod_def]
  have low := Int.emod_nonneg ⌊lon / 5⌋ (by decide : (72 : ℤ) ≠ 0)
  have high := Int.emod_lt_of_pos ⌊lon / 5⌋ (by decide : (0 : ℤ) < 72)
  rw [degreeBucket, bucket, UInt32.toNat_ofNat']
  omega

/-- The offsets, in buckets. -/
def offsetBuckets : List ℤ := [0, 36, 18, 54, 24, 48]

theorem aspectOffsets_eq : aspectOffsets = offsetBuckets.map fun k : ℤ => 5 * (k : ℚ) := by
  norm_num [aspectOffsets, offsetBuckets]

theorem degreeBucket_offset (lon : ℚ) (k : ℤ) :
    ((degreeBucket (lon + 5 * k)).toNat : ℤ) = (⌊lon / 5⌋ + k) % 72 := by
  have shifted : (lon + 5 * k) / 5 = lon / 5 + k := by ring
  rw [toNat_degreeBucket, shifted, Int.floor_add_intCast]

/-- Offsets differ by every multiple of 30°. -/
theorem exists_offsetBuckets_iff (x y : ℤ) :
    (∃ k ∈ offsetBuckets, ∃ l ∈ offsetBuckets, (x + k) % 72 = (y + l) % 72) ↔
      x % 6 = y % 6 := by
  constructor
  · rintro ⟨k, hk, l, hl, same⟩
    have whole : ∀ k ∈ offsetBuckets, k % 6 = 0 := by decide
    have := whole k hk
    have := whole l hl
    omega
  · intro same
    have every : ∀ n : Fin 12, ∃ k ∈ offsetBuckets, ∃ l ∈ offsetBuckets,
        (k - l) % 72 = 6 * (n : ℤ) := by decide
    have twelfth : (((y - x) % 72 / 6).toNat) < 12 := by omega
    obtain ⟨k, hk, l, hl, differ⟩ := every ⟨_, twelfth⟩
    refine ⟨k, hk, l, hl, ?_⟩
    dsimp only at differ
    omega

/-- Two longitudes are looked at in a common bucket exactly when they lie in the same sixth of
their signs. -/
theorem exists_degreeBucket_iff (a b : ℚ) :
    (∃ o ∈ aspectOffsets, ∃ o' ∈ aspectOffsets, degreeBucket (a + o) = degreeBucket (b + o')) ↔
      ⌊a / 5⌋ % 6 = ⌊b / 5⌋ % 6 := by
  have same : ∀ k l : ℤ, degreeBucket (a + 5 * k) = degreeBucket (b + 5 * l) ↔
      (⌊a / 5⌋ + k) % 72 = (⌊b / 5⌋ + l) % 72 := by
    intro k l
    rw [← degreeBucket_offset, ← degreeBucket_offset, Int.natCast_inj, UInt32.toNat_inj]
  rw [aspectOffsets_eq, ← exists_offsetBuckets_iff]
  simp only [List.mem_map, exists_exists_and_eq_and, same]

/-! ## Two charts -/

/-- Some personal planet of one chart and some personal planet of the other are related. -/
def PersonalPair (related : ℚ → ℚ → Prop) (A B : PlanetPositions) : Prop :=
  ∃ p ∈ personalPlanets, ∃ q ∈ personalPlanets, ∃ a b, A p = some a ∧ B q = some b ∧ related a b

/-- Within five degrees of a conjunction, square, trine or opposition. -/
def InAspect : PlanetPositions → PlanetPositions → Prop :=
  PersonalPair fun a b => ∃ kind ∈ [AspectKind.conjunction, .square, .trine, .opposition],
    |angularSeparation a b - kind.angle| ≤ 5

/-- In the same 5° part of their signs of 30°. -/
def SameSixth : PlanetPositions → PlanetPositions → Prop :=
  PersonalPair fun a b => ⌊a / 5⌋ % 6 = ⌊b / 5⌋ % 6

theorem mem_bucketsOfChart {positions : PlanetPositions} {bucket : UInt32} :
    bucket ∈ bucketsOfChart positions ↔ ∃ p ∈ personalPlanets, ∃ lon, positions p = some lon ∧
      ∃ o ∈ aspectOffsets, degreeBucket (lon + o) = bucket := by
  simp only [bucketsOfChart, List.mem_flatMap]
  refine exists_congr fun p => and_congr_right fun _ => ?_
  cases positions p with
  | none => simp
  | some lon => simp

theorem length_bucketsOfChart (positions : PlanetPositions) :
    (bucketsOfChart positions).length ≤ 30 := by
  have each : ∀ planet, (match positions planet with
      | none => ([] : List UInt32)
      | some lon => aspectOffsets.map fun offset => degreeBucket (lon + offset)).length ≤ 6 := by
    intro planet
    cases positions planet with
    | none => exact Nat.zero_le 6
    | some lon => rw [List.length_map]; decide
  simp only [bucketsOfChart, personalPlanets, List.flatMap_cons, List.flatMap_nil,
    List.length_append, List.length_nil]
  have := each .sun
  have := each .moon
  have := each .mercury
  have := each .venus
  have := each .mars
  omega

section Charts

variable {H : Hashes Digest Args} (hash_inj : Function.Injective H.hash)
  (A B : PlanetPositions)
include hash_inj

/-- Two charts share a topic exactly when personal planets of theirs are in the same sixth. -/
theorem shares_topic_iff :
    (∃ k ∈ topicKeysForChart H A, k ∈ topicKeysForChart H B) ↔ SameSixth A B := by
  have keysA := (chartTopics_of hash_inj A).mem_keys
  have keysB := (chartTopics_of hash_inj B).mem_keys
  constructor
  · rintro ⟨k, hA, hB⟩
    obtain ⟨b, hb, rfl⟩ := (keysA k).1 hA
    obtain ⟨b', hb', same⟩ := (keysB _).1 hB
    obtain rfl := topicKeyForDegree_injective hash_inj same
    obtain ⟨p, hp, lon, at_p, o, ho, rfl⟩ := mem_bucketsOfChart.1 hb
    obtain ⟨q, hq, lon', at_q, o', ho', meet⟩ := mem_bucketsOfChart.1 hb'
    exact ⟨p, hp, q, hq, lon, lon', at_p, at_q,
      (exists_degreeBucket_iff lon lon').1 ⟨o, ho, o', ho', meet.symm⟩⟩
  · rintro ⟨p, hp, q, hq, lon, lon', at_p, at_q, sixth⟩
    obtain ⟨o, ho, o', ho', meet⟩ := (exists_degreeBucket_iff lon lon').2 sixth
    refine ⟨_, (keysA _).2 ⟨_, mem_bucketsOfChart.2 ⟨p, hp, lon, at_p, o, ho, rfl⟩, rfl⟩, ?_⟩
    exact (keysB _).2 ⟨_, mem_bucketsOfChart.2 ⟨q, hq, lon', at_q, o', ho', meet.symm⟩, rfl⟩

omit hash_inj in
/-- What the topics promise: charts in aspect share one, and a chart has few and each once. -/
structure DegreeTopicsHold (H : Hashes Digest Args) (A B : PlanetPositions) : Prop where
  shared : InAspect A B → ∃ k ∈ topicKeysForChart H A, k ∈ topicKeysForChart H B
  nodup : ∀ positions, (topicKeysForChart H positions).Nodup
  few : ∀ positions, (topicKeysForChart H positions).length ≤ 30

/-- **The topics keep their promise for two charts exactly when these are in no aspect or in a
same sixth.** -/
theorem shared_degree_topics_iff :
    DegreeTopicsHold H A B ↔ (InAspect A B → SameSixth A B) := by
  constructor
  · exact fun h aspect => (shares_topic_iff hash_inj A B).1 (h.shared aspect)
  · intro sixth
    refine ⟨fun aspect => (shares_topic_iff hash_inj A B).2 (sixth aspect), fun positions => ?_,
      fun positions => ?_⟩
    · exact (chartTopics_of hash_inj positions).nodup
    · exact (chartTopics_of hash_inj positions).length_le.trans (length_bucketsOfChart positions)

end Charts

/-! ### Two suns at a border -/

/-- A chart with a sun only. -/
def sunAt (lon : ℚ) : PlanetPositions := fun planet => if planet = .sun then some lon else none

theorem shared_degree_topics_iff_suns :
    DegreeTopicsHold symbolicHashes (sunAt 12) (sunAt 14) ↔
      (InAspect (sunAt 12) (sunAt 14) → SameSixth (sunAt 12) (sunAt 14)) :=
  shared_degree_topics_iff Function.injective_id (sunAt 12) (sunAt 14)

/-- Two suns at 4.9° and 5.1° are as good as conjunct. -/
theorem suns_at_border_share_nothing :
    ¬ DegreeTopicsHold symbolicHashes (sunAt 4.9) (sunAt 5.1) := by
  intro h
  have conjunct : InAspect (sunAt 4.9) (sunAt 5.1) := by
    refine ⟨.sun, by decide, .sun, by decide, 4.9, 5.1, rfl, rfl, .conjunction, by decide, ?_⟩
    norm_num [angularSeparation, remEuclid, AspectKind.angle]
  obtain ⟨p, -, q, -, a, b, at_p, at_q, sixth⟩ :=
    (shares_topic_iff Function.injective_id _ _).1 (h.shared conjunct)
  have first : a = 4.9 := by
    unfold sunAt at at_p
    split_ifs at at_p
    exact (Option.some.inj at_p).symm
  have second : b = 5.1 := by
    unfold sunAt at at_q
    split_ifs at at_q
    exact (Option.some.inj at_q).symm
  rw [first, second] at sixth
  norm_num at sixth

end Zodia.Sync
