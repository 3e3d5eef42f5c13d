import Mathlib.Logic.Function.Iterate
import Zodia.Lib.Cbor
import Zodia.Lib.Run

/-!
# Loss concealment

The decoder thread of `av/src/transport.rs`. Every audio packet carries the number of the packet,
counted in 32 bits, and the thread plays up to three concealment frames for a gap between the
packet and the one received before it. The gap is a difference that wraps, so a packet that is
behind the last one looks far ahead of it.

The codec is a library and a parameter here.

## Main definitions

* `DecoderThread.receive` — what the thread does with one datagram.
* `Reception` — the thread, with the newest packet received.
* `WithinLoss` — no more frames are concealed than packets are missing.
* `InOrder` — every packet is newer than those before it.

## Main results

* `withinLoss_iff` — concealment stays within the loss exactly if the packets arrive in order.
-/

namespace Zodia.Av

open Lib Value

/-! ## The decoder thread -/

/-- One call of the decoder: its state after it, and the samples if it succeeds. No input asks for
a concealment frame. -/
structure Codec (δ Sample : Type*) where
  decodeFloat : δ → Bytes → Bool → δ × Option (List Sample)

/-- `u32::wrapping_sub` -/
def wrappingSub (a b : ℕ) : ℕ := (a + 2 ^ 32 - b) % 2 ^ 32

variable {δ Sample : Type*}

structure DecoderThread (δ Sample : Type*) where
  dec : δ
  lastSeq : ℕ
  first : Bool
  /-- The slices pushed to the playback buffer. -/
  playProd : List (List Sample)

namespace DecoderThread

section

variable (codec : Codec δ Sample) (s : DecoderThread δ Sample)

/-- Decode once, and push the samples if there are any. -/
def decode (input : Bytes) (fec : Bool) : DecoderThread δ Sample :=
  match codec.decodeFloat s.dec input fec with
  | (dec, some pcm) => { s with dec := dec, playProd := s.playProd ++ [pcm] }
  | (dec, none) => { s with dec := dec }

/-- The frames to conceal before the packet `seq`, at most 3 to avoid runaway fill. -/
def missed (seq : ℕ) : ℕ :=
  if s.first then 0 else min (wrappingSub (wrappingSub seq s.lastSeq) 1) 3

/-- The loop that conceals the missing frames. -/
def conceal (seq : ℕ) : DecoderThread δ Sample :=
  (fun s => s.decode codec [] true)^[s.missed seq] s

/-- One datagram. It starts with the number of the packet, or it is too short and passed over. -/
def receive (bytes : Bytes) : DecoderThread δ Sample :=
  match readBigEndian 4 bytes with
  | none => s
  | some (seq, opusData) =>
    let concealed := s.conceal codec seq
    { concealed with first := false, lastSeq := seq }.decode codec opusData false

/-- The concealment frames that are played before what the datagram holds. -/
def concealmentFrames (bytes : Bytes) : ℕ :=
  match readBigEndian 4 bytes with
  | none => 0
  | some (seq, _) => (s.conceal codec seq).playProd.length - s.playProd.length

end

/-- The thread when it starts. -/
def start (dec : δ) : DecoderThread δ Sample := ⟨dec, 0, true, []⟩

end DecoderThread

/-! ## Receptions -/

/-- The number that the encoder thread writes into its `n`th packet. -/
def wireSeq (n : ℕ) : ℕ := (fun seq => (seq + 1) % 2 ^ 32)^[n] 0

theorem wireSeq_eq (n : ℕ) : wireSeq n = n % 2 ^ 32 := by
  induction n with
  | zero => rfl
  | succ n ih =>
    rw [wireSeq, Function.iterate_succ_apply', ← wireSeq, ih]
    omega

/-- What is received: the packets of the encoder, each with its count, and what is no packet. -/
inductive Datagram where
  | audio (number : ℕ) (opusData : Bytes)
  | runt (bytes : Bytes) (short : bytes.length < 4)

def Datagram.bytes : Datagram → Bytes
  | audio number opusData => bigEndian 4 (wireSeq number) ++ opusData
  | runt bytes _ => bytes

def Datagram.number : Datagram → Option ℕ
  | audio number _ => some number
  | runt .. => none

/-- The thread, and the newest packet received so far. -/
structure Reception (δ Sample : Type*) where
  thread : DecoderThread δ Sample
  newest : Option ℕ

namespace Reception

def newestWith (newest : Option ℕ) : Datagram → Option ℕ
  | .audio number _ => some (newest.elim number (max number))
  | .runt .. => newest

def step (codec : Codec δ Sample) (s : Reception δ Sample) (d : Datagram) : Reception δ Sample where
  thread := s.thread.receive codec d.bytes
  newest := newestWith s.newest d

/-- Nothing is received yet. -/
def start (dec : δ) : Reception δ Sample := ⟨.start dec, none⟩

/-- The packets strictly between the newest one and this one. -/
def lost (s : Reception δ Sample) (d : Datagram) : ℕ :=
  match s.newest, d.number with
  | some newest, some number => number - newest - 1
  | _, _ => 0

/-- No more frames are concealed than packets are missing. -/
def WithinLoss (codec : Codec δ Sample) (s : Reception δ Sample) (d : Datagram) : Prop :=
  s.thread.concealmentFrames codec d.bytes ≤ s.lost d

/-- The packet is less than half of the numbers away from the newest one. -/
def Near (s : Reception δ Sample) (d : Datagram) : Prop :=
  ∀ newest ∈ s.newest, ∀ number ∈ d.number, number < newest + 2 ^ 31 ∧ newest < number + 2 ^ 31

end Reception

/-- Every packet is newer than the ones before it. -/
def InOrder (run : List Datagram) : Prop := (run.filterMap Datagram.number).Pairwise (· < ·)

/-- The decoder always has a concealment frame. -/
def Codec.Conceals (codec : Codec δ Sample) : Prop :=
  ∀ dec, (codec.decodeFloat dec [] true).2.isSome

/-! ## One datagram -/

namespace DecoderThread

variable {codec : Codec δ Sample} (s : DecoderThread δ Sample)

@[simp] theorem decode_first (input : Bytes) (fec : Bool) :
    (s.decode codec input fec).first = s.first := by
  unfold decode
  split <;> rfl

@[simp] theorem decode_lastSeq (input : Bytes) (fec : Bool) :
    (s.decode codec input fec).lastSeq = s.lastSeq := by
  unfold decode
  split <;> rfl

theorem length_decode_le (input : Bytes) (fec : Bool) :
    (s.decode codec input fec).playProd.length ≤ s.playProd.length + 1 := by
  unfold decode
  split <;> simp

theorem length_decode (conceals : codec.Conceals) :
    (s.decode codec [] true).playProd.length = s.playProd.length + 1 := by
  have answers := conceals s.dec
  unfold decode
  split
  · simp
  · next none_eq => simp [none_eq] at answers

/-- The loop plays at most one frame in each round. -/
theorem length_iterate_le (k : ℕ) :
    ((fun s => s.decode codec [] true)^[k] s).playProd.length ≤ s.playProd.length + k := by
  induction k with
  | zero => exact le_rfl
  | succ k ih =>
    rw [Function.iterate_succ_apply']
    exact (length_decode_le _ _ _).trans (by omega)

theorem length_iterate (conceals : codec.Conceals) (k : ℕ) :
    ((fun s => s.decode codec [] true)^[k] s).playProd.length = s.playProd.length + k := by
  induction k with
  | zero => rfl
  | succ k ih =>
    rw [Function.iterate_succ_apply', length_decode _ conceals, ih]
    rfl

end DecoderThread

theorem readBigEndian_audio (number : ℕ) (opusData : Bytes) :
    readBigEndian 4 (Datagram.audio number opusData).bytes = some (number % 2 ^ 32, opusData) := by
  rw [Datagram.bytes, wireSeq_eq]
  exact readBigEndian_bigEndian 4 (Nat.mod_lt number (by norm_num)) opusData

theorem readBigEndian_runt {k : ℕ} {bytes : Bytes} (short : bytes.length < k) :
    readBigEndian k bytes = none := by
  induction k generalizing bytes with
  | zero => omega
  | succ k ih =>
    cases bytes with
    | nil => rfl
    | cons b bytes => rw [readBigEndian, ih (by simpa using short), Option.map_none]

namespace Reception

variable {codec : Codec δ Sample} {s : Reception δ Sample} {d : Datagram}

/-- The thread keeps the number of the newest packet. -/
def Tracks (s : Reception δ Sample) : Prop :=
  match s.newest with
  | none => s.thread.first = true
  | some newest => s.thread.first = false ∧ s.thread.lastSeq = newest % 2 ^ 32

/-- The packet is newer than all before it. -/
def Newer (s : Reception δ Sample) (d : Datagram) : Prop :=
  ∀ newest ∈ s.newest, ∀ number ∈ d.number, newest < number

theorem wrappingSub_of_lt {newest number : ℕ} (newer : newest < number)
    (near : number < newest + 2 ^ 31) :
    wrappingSub (wrappingSub (number % 2 ^ 32) (newest % 2 ^ 32)) 1 = number - newest - 1 := by
  simp only [wrappingSub]
  omega

/-- A packet behind the newest one looks far ahead of it. -/
theorem wrappingSub_of_le {newest number : ℕ} (late : number ≤ newest)
    (near : newest < number + 2 ^ 31) :
    2 ^ 31 ≤ wrappingSub (wrappingSub (number % 2 ^ 32) (newest % 2 ^ 32)) 1 := by
  simp only [wrappingSub]
  omega

/-- The gap that the thread sees is at most the loss exactly if the packet is newer. -/
theorem missed_le_lost_iff (tracks : s.Tracks) {number : ℕ} {opusData : Bytes}
    (near : s.Near (.audio number opusData)) :
    s.thread.missed (number % 2 ^ 32) ≤ s.lost (.audio number opusData) ↔
      s.Newer (.audio number opusData) := by
  obtain ⟨thread, newest⟩ := s
  cases newest with
  | none =>
    have first : thread.first = true := tracks
    simp [DecoderThread.missed, first, Newer]
  | some newest =>
    obtain ⟨first, lastSeq⟩ : thread.first = false ∧ thread.lastSeq = newest % 2 ^ 32 := tracks
    obtain ⟨ahead, behind⟩ := near newest rfl number rfl
    have newer : Newer (⟨thread, some newest⟩ : Reception δ Sample) (.audio number opusData) ↔
        newest < number := by
      simp [Newer, Datagram.number]
    rw [newer, DecoderThread.missed, first, lastSeq]
    simp only [lost, Datagram.number, Bool.false_eq_true, if_false]
    rcases lt_or_ge newest number with lt | le
    · rw [wrappingSub_of_lt lt ahead]
      exact iff_of_true (min_le_left _ _) lt
    · have far := wrappingSub_of_le le behind
      exact iff_of_false (by omega) (by omega)

theorem concealmentFrames_audio_le (number : ℕ) (opusData : Bytes) :
    s.thread.concealmentFrames codec (Datagram.audio number opusData).bytes ≤
      s.thread.missed (number % 2 ^ 32) := by
  rw [DecoderThread.concealmentFrames, readBigEndian_audio]
  simp only [DecoderThread.conceal]
  exact Nat.sub_le_iff_le_add'.2 (DecoderThread.length_iterate_le _ _)

theorem concealmentFrames_audio (conceals : codec.Conceals) (number : ℕ) (opusData : Bytes) :
    s.thread.concealmentFrames codec (Datagram.audio number opusData).bytes =
      s.thread.missed (number % 2 ^ 32) := by
  rw [DecoderThread.concealmentFrames, readBigEndian_audio]
  simp only [DecoderThread.conceal]
  rw [DecoderThread.length_iterate _ conceals, Nat.add_sub_cancel_left]

theorem withinLoss_runt {bytes : Bytes} (short : bytes.length < 4) :
    WithinLoss codec s (.runt bytes short) := by
  rw [WithinLoss, DecoderThread.concealmentFrames, Datagram.bytes, readBigEndian_runt short]
  exact Nat.zero_le _

/-- A packet that is newer is concealed within the loss, whatever the decoder does. -/
theorem Newer.withinLoss (tracks : s.Tracks) (near : s.Near d) (newer : s.Newer d) :
    WithinLoss codec s d := by
  cases d with
  | audio number opusData =>
    exact (concealmentFrames_audio_le number opusData).trans
      ((missed_le_lost_iff tracks near).2 newer)
  | runt bytes short => exact withinLoss_runt short

theorem withinLoss_iff_newer (conceals : codec.Conceals) (tracks : s.Tracks) (near : s.Near d) :
    WithinLoss codec s d ↔ s.Newer d := by
  refine ⟨fun within => ?_, fun newer => newer.withinLoss tracks near⟩
  cases d with
  | audio number opusData =>
    rw [WithinLoss, concealmentFrames_audio conceals] at within
    exact (missed_le_lost_iff tracks near).1 within
  | runt bytes short => exact fun _ _ _ none_eq => by cases none_eq

theorem receive_audio (number : ℕ) (opusData : Bytes) :
    (s.thread.receive codec (Datagram.audio number opusData).bytes).first = false ∧
      (s.thread.receive codec (Datagram.audio number opusData).bytes).lastSeq =
        number % 2 ^ 32 := by
  rw [DecoderThread.receive, readBigEndian_audio]
  simp

/-- A newer packet is the newest one and the last one. -/
theorem Newer.tracks (tracks : s.Tracks) (newer : s.Newer d) : (s.step codec d).Tracks := by
  obtain ⟨thread, newest⟩ := s
  cases d with
  | audio number opusData =>
    have newest_eq : newestWith newest (.audio number opusData) = some number := by
      cases newest with
      | none => rfl
      | some newest =>
        have le : newest ≤ number := (newer newest rfl number rfl).le
        rw [newestWith, Option.elim_some, max_eq_left le]
    simp only [Tracks, step, newest_eq]
    exact receive_audio (s := ⟨thread, newest⟩) number opusData
  | runt bytes short =>
    have passed : thread.receive codec (Datagram.runt bytes short).bytes = thread := by
      rw [DecoderThread.receive, Datagram.bytes, readBigEndian_runt short]
    simpa only [Tracks, step, newestWith, passed] using tracks

/-! ## Runs -/

/-- Each packet is newer than those before it exactly if the packets are in order. -/
theorem along_newer_iff (run : List Datagram) (s : Reception δ Sample) :
    Along (step codec) Newer s run ↔
      (∀ newest ∈ s.newest, ∀ number ∈ run.filterMap Datagram.number, newest < number) ∧
        InOrder run := by
  induction run generalizing s with
  | nil => simp [InOrder]
  | cons d run ih =>
    rw [along_cons, ih]
    obtain ⟨thread, newest⟩ := s
    cases d with
    | runt bytes short =>
      have none_eq : (Datagram.runt bytes short).number = none := rfl
      simp only [Newer, step, newestWith, InOrder, List.filterMap_cons, none_eq]
      simp
    | audio number opusData =>
      simp only [Newer, step, newestWith, InOrder, List.filterMap_cons, Datagram.number,
        List.pairwise_cons, List.forall_mem_cons, Option.mem_def, Option.some.injEq, forall_eq']
      cases newest with
      | none => simp
      | some newest =>
        simp only [Option.elim_some, Option.some.injEq, forall_eq']
        grind

/-- **Concealment stays within the loss exactly if the packets arrive in order.** In order it does
so whatever the decoder does. -/
theorem withinLoss_iff (codec : Codec δ Sample) (dec : δ) (run : List Datagram)
    (near : Along (step codec) Near (start dec) run) :
    (InOrder run → Along (step codec) (WithinLoss codec) (start dec) run) ∧
      (codec.Conceals → Along (step codec) (WithinLoss codec) (start dec) run → InOrder run) := by
  have tracks : (start dec : Reception δ Sample).Tracks := rfl
  have newer_iff : Along (step codec) Newer (start dec) run ↔ InOrder run := by
    rw [along_newer_iff]
    exact and_iff_right fun _ none_eq => by cases none_eq
  rw [← newer_iff]
  constructor
  · intro newer
    exact Along.of_invariant (fun s d tracks met => met.1.tracks tracks)
      (fun s d tracks met => met.1.withinLoss tracks met.2) tracks (along_and.2 ⟨newer, near⟩)
  · intro conceals
    exact (Along.congr (fun s d tracks _ newer => newer.tracks tracks)
      (fun s d tracks near => withinLoss_iff_newer conceals tracks near) tracks near).1

/-- A decoder that plays one silent sample for every call. -/
def silence : Codec Unit ℕ := ⟨fun dec _ _ => (dec, some [0])⟩

theorem silence_conceals : silence.Conceals := fun _ => rfl

theorem withinLoss_iff_silence :
    (InOrder [.audio 0 [], .audio 2 []] →
      Along (step silence) (WithinLoss silence) (start ()) [.audio 0 [], .audio 2 []]) ∧
    (silence.Conceals →
      Along (step silence) (WithinLoss silence) (start ()) [.audio 0 [], .audio 2 []] →
      InOrder [.audio 0 [], .audio 2 []]) :=
  withinLoss_iff silence () [.audio 0 [], .audio 2 []]
    ⟨by simp [Near, start], by simp [Near, step, start, newestWith, Datagram.number], trivial⟩

/-- Three frames are concealed before a packet that was received already. -/
theorem duplicate_concealed :
    silence.Conceals ∧
      Along (step silence) Near (start ()) [.audio 0 [], .audio 0 []] ∧
      ¬ Along (step silence) (WithinLoss silence) (start ()) [.audio 0 [], .audio 0 []] := by
  refine ⟨silence_conceals, ?_, ?_⟩
  · exact ⟨by simp [Near, start], by simp [Near, step, start, newestWith, Datagram.number], trivial⟩
  · rintro ⟨-, within, -⟩
    exact absurd within (by unfold WithinLoss; decide)

end Reception

end Zodia.Av
