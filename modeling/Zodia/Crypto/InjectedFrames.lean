import Zodia.Crypto.Ratchet
import Zodia.Lib.Run

/-!
# Frames injected into a chain

The sender and the receiver of one direction hold chains made from the same key under the same
context. The receiver gets the sender's frames in order, and between them any other frames.
`RatchetChain.decrypt` checks the length of a frame before it advances the chain and the
authentication tag after it, so a frame that is long enough moves the chain whether or not it
is genuine.

## Main results

* `harmless_iff_short` — every frame does what it should in exactly the runs whose injected
  frames have no room for a nonce.
* `lost_after_long` — once a longer frame was injected, no genuine frame decrypts any more.
-/

namespace Zodia.Crypto

open Lib

variable {Key : Type*} {K : Kdf Key} {C : Aead Key Nonce}

/-! ## The two ends of a chain -/

structure ChainEnds (Key : Type*) where
  sender : RatchetChain Key
  receiver : RatchetChain Key

/-- The sender encrypts a message and the receiver gets its frame, or the receiver gets a frame
from elsewhere. -/
inductive FrameEvent where
  | genuine (nonce : Nonce) (plaintext : Bytes)
  | injected (frame : Bytes)

namespace ChainEnds

def new (K : Kdf Key) (sessionKey : Key) (context : String) : ChainEnds Key :=
  ⟨.new K sessionKey context, .new K sessionKey context⟩

def step (K : Kdf Key) (C : Aead Key Nonce) (s : ChainEnds Key) : FrameEvent → ChainEnds Key
  | .genuine nonce plaintext =>
    match s.sender.encrypt K C nonce plaintext with
    | (.error _, sender) => { s with sender }
    | (.ok frame, sender) => ⟨sender, (s.receiver.decrypt K C frame).2⟩
  | .injected frame => { s with receiver := (s.receiver.decrypt K C frame).2 }

/-- The cipher takes the message, so that there is a frame. -/
def Sends (K : Kdf Key) (C : Aead Key Nonce) (s : ChainEnds Key) : FrameEvent → Prop
  | .genuine nonce plaintext => ∃ frame, (s.sender.encrypt K C nonce plaintext).1 = .ok frame
  | .injected _ => True

/-- A genuine frame decrypts to its plaintext. An injected frame is rejected and leaves the
receiving chain unchanged. -/
def Harmless (K : Kdf Key) (C : Aead Key Nonce) (s : ChainEnds Key) : FrameEvent → Prop
  | .genuine nonce plaintext => ∀ frame, (s.sender.encrypt K C nonce plaintext).1 = .ok frame →
      (s.receiver.decrypt K C frame).1 = .ok plaintext
  | .injected frame => (∃ e, (s.receiver.decrypt K C frame).1 = .error e) ∧
      (s.receiver.decrypt K C frame).2 = s.receiver

end ChainEnds

/-- An injected frame has no room for a nonce. -/
def FrameEvent.Short : FrameEvent → Prop
  | .genuine _ _ => True
  | .injected frame => frame.length < 24

/-! ## Runs -/

theorem RatchetChain.advance_ne (r : RatchetChain Key) : (r.advance K).2 ≠ r := fun same => by
  have counters : r.counter + 1 = r.counter := congrArg RatchetChain.counter same
  simp at counters

namespace ChainEnds

variable {s : ChainEnds Key} {nonce : Nonce} {plaintext frame : Bytes} {e : FrameEvent}

theorem step_genuine (sent : (s.sender.encrypt K C nonce plaintext).1 = .ok frame) :
    s.step K C (.genuine nonce plaintext) =
      ⟨(s.sender.advance K).2, (s.receiver.decrypt K C frame).2⟩ := by
  have next := s.sender.encrypt_snd (K := K) (C := C) nonce plaintext
  rw [step]
  revert sent next
  cases s.sender.encrypt K C nonce plaintext with
  | mk out sender =>
    rintro rfl rfl
    rfl

/-! ### While only short frames are injected -/

/-- Both ends are in the same state. -/
def InStep (s : ChainEnds Key) : Prop := s.receiver = s.sender

theorem InStep.decrypts (hC : C.Ideal) (inStep : s.InStep)
    (sent : (s.sender.encrypt K C nonce plaintext).1 = .ok frame) :
    (s.receiver.decrypt K C frame).1 = .ok plaintext := by
  obtain ⟨ciphertext, taken, rfl⟩ := RatchetChain.encrypt_ok sent
  rw [inStep, RatchetChain.decrypt_append, hC.correct taken]

theorem InStep.step (inStep : s.InStep) (sends : s.Sends K C e) (short : e.Short) :
    (s.step K C e).InStep := by
  cases e with
  | genuine nonce plaintext =>
    obtain ⟨frame, sent⟩ := sends
    rw [step_genuine sent, InStep, RatchetChain.decrypt_long _ (RatchetChain.encrypt_long sent),
      inStep]
  | injected frame =>
    rw [ChainEnds.step, RatchetChain.decrypt_short _ short]
    exact inStep

/-- An injected frame is harmless exactly if the chain does not get to its tag. -/
theorem InStep.harmless_iff (hC : C.Ideal) (inStep : s.InStep) :
    s.Harmless K C e ↔ e.Short := by
  cases e with
  | genuine nonce plaintext => exact ⟨fun _ => trivial, fun _ frame sent => inStep.decrypts hC sent⟩
  | injected frame =>
    constructor
    · rintro ⟨-, unchanged⟩
      by_contra long
      rw [RatchetChain.decrypt_long _ long] at unchanged
      exact s.receiver.advance_ne unchanged
    · intro short
      rw [Harmless, RatchetChain.decrypt_short _ short]
      exact ⟨⟨_, rfl⟩, rfl⟩

/-- Every genuine frame decrypts, and every injected frame is rejected and changes nothing,
exactly if each injected frame is shorter than a nonce. -/
theorem harmless_iff_short (hC : C.Ideal) (sessionKey : Key) (context : String)
    {es : List FrameEvent} (sent : Along (step K C) (Sends K C) (.new K sessionKey context) es) :
    Along (step K C) (Harmless K C) (.new K sessionKey context) es ↔ ∀ e ∈ es, e.Short := by
  have start : (new K sessionKey context).InStep := rfl
  refine Iff.trans (Along.congr ?_ ?_ start sent) along_iff_forall
  · exact fun s e inStep sends short => InStep.step inStep sends short
  · exact fun s e inStep _ => InStep.harmless_iff hC inStep

/-- A short frame between two messages. -/
theorem harmless_iff_short_between :
    Along (step symbolicKdf (symbolicAead Nonce)) (Harmless symbolicKdf (symbolicAead Nonce))
        (.new symbolicKdf [1] "zodia ratchet initiator send chain")
        [.genuine (Vector.replicate 24 0) [7], .injected [1, 2, 3],
          .genuine (Vector.replicate 24 0) [8]] := by
  refine (harmless_iff_short (symbolicAead_ideal Nonce) [1]
    "zodia ratchet initiator send chain" ?_).mpr ?_
  · exact ⟨⟨_, rfl⟩, trivial, ⟨_, rfl⟩, trivial⟩
  · simp [FrameEvent.Short]

/-! ### After a longer one -/

/-- No genuine frame decrypts. -/
def Lost (K : Kdf Key) (C : Aead Key Nonce) (s : ChainEnds Key) : FrameEvent → Prop
  | .genuine nonce plaintext => ∀ frame, (s.sender.encrypt K C nonce plaintext).1 = .ok frame →
      (s.receiver.decrypt K C frame).1 = .error .decrypt
  | .injected _ => True

/-- The receiver has advanced more often than the sender. -/
def Ahead (K : Kdf Key) (sessionKey : Key) (context : String) (s : ChainEnds Key) : Prop :=
  ∃ n m, n < m ∧ s.sender.chainKey = chainKeyAt K sessionKey context n ∧
    s.receiver.chainKey = chainKeyAt K sessionKey context m

variable {sessionKey : Key} {context : String}

/-- The receiver stays ahead: each genuine frame moves both ends. -/
theorem Ahead.step (ahead : s.Ahead K sessionKey context) (sends : s.Sends K C e) :
    (s.step K C e).Ahead K sessionKey context := by
  obtain ⟨n, m, hnm, sender, receiver⟩ := ahead
  have sender' : (s.sender.advance K).2.chainKey = chainKeyAt K sessionKey context (n + 1) := by
    rw [RatchetChain.advance, chainKeyAt, sender]
  have receiver' : (s.receiver.advance K).2.chainKey = chainKeyAt K sessionKey context (m + 1) := by
    rw [RatchetChain.advance, chainKeyAt, receiver]
  cases e with
  | genuine nonce plaintext =>
    obtain ⟨frame, sent⟩ := sends
    rw [step_genuine sent, RatchetChain.decrypt_long _ (RatchetChain.encrypt_long sent)]
    exact ⟨n + 1, m + 1, Nat.succ_lt_succ hnm, sender', receiver'⟩
  | injected frame =>
    rw [ChainEnds.step]
    by_cases short : frame.length < 24
    · rw [RatchetChain.decrypt_short _ short]
      exact ⟨n, m, hnm, sender, receiver⟩
    · rw [RatchetChain.decrypt_long _ short]
      exact ⟨n, m + 1, Nat.lt_succ_of_lt hnm, sender, receiver'⟩

theorem Ahead.lost (hK : K.Injective) (hC : C.Ideal) (hc : context ≠ chainAdvanceContext)
    (ahead : s.Ahead K sessionKey context) : s.Lost K C e := by
  obtain ⟨n, m, hnm, sender, receiver⟩ := ahead
  cases e with
  | injected frame => trivial
  | genuine nonce plaintext =>
    intro frame sent
    obtain ⟨ciphertext, taken, rfl⟩ := RatchetChain.encrypt_ok sent
    have key_ne : messageKey K s.sender.chainKey s.sender.counter ≠
        messageKey K s.receiver.chainKey s.receiver.counter := fun same => by
      have keys := messageKey_inj hK same
      rw [sender, receiver] at keys
      exact hnm.ne (chainKeyAt_inj hK hc keys)
    rw [RatchetChain.decrypt_append, hC.other_key taken key_ne]

/-- An injected frame with room for a nonce loses every later message. -/
theorem lost_after_long (hK : K.Injective) (hC : C.Ideal) (hc : context ≠ chainAdvanceContext)
    (long : ¬ frame.length < 24) {es : List FrameEvent}
    (sent : Along (step K C) (Sends K C)
      ((new K sessionKey context).step K C (.injected frame)) es) :
    Along (step K C) (Lost K C) ((new K sessionKey context).step K C (.injected frame)) es := by
  have start : ((new K sessionKey context).step K C (.injected frame)).Ahead K sessionKey
      context := by
    rw [ChainEnds.step, RatchetChain.decrypt_long _ long]
    exact ⟨0, 1, Nat.zero_lt_one, rfl, rfl⟩
  refine Along.of_invariant ?_ ?_ start sent
  · exact fun s e ahead sends => Ahead.step ahead sends
  · exact fun s e ahead _ => Ahead.lost hK hC hc ahead

/-- After 24 bytes of zero the next message is lost. -/
theorem zeros_lose_the_message :
    let start : ChainEnds Bytes := .new symbolicKdf [1] "zodia ratchet initiator send chain"
    let zeros : FrameEvent := .injected (List.replicate 24 0)
    let message : FrameEvent := .genuine (Vector.replicate 24 0) [7]
    Along (step symbolicKdf (symbolicAead Nonce)) (Sends symbolicKdf (symbolicAead Nonce)) start
        [zeros, message] ∧
      ¬ Harmless symbolicKdf (symbolicAead Nonce) start zeros ∧
      ¬ Harmless symbolicKdf (symbolicAead Nonce)
        (start.step symbolicKdf (symbolicAead Nonce) zeros) message := by
  intro start zeros message
  have long : ¬ (List.replicate 24 (0 : UInt8)).length < 24 := by simp
  have sent : Along (step symbolicKdf (symbolicAead Nonce))
      (Sends symbolicKdf (symbolicAead Nonce)) (start.step symbolicKdf (symbolicAead Nonce) zeros)
      [message] := ⟨⟨_, rfl⟩, trivial⟩
  refine ⟨⟨trivial, sent⟩, ?_, ?_⟩
  · rintro ⟨-, unchanged⟩
    rw [RatchetChain.decrypt_long _ long] at unchanged
    exact start.receiver.advance_ne unchanged
  · intro harmless
    have lost := lost_after_long symbolicKdf_injective (symbolicAead_ideal Nonce)
      (by decide) long sent
    have opened := (harmless _ rfl).symm.trans (lost.1 _ rfl)
    cases opened

end ChainEnds

end Zodia.Crypto
