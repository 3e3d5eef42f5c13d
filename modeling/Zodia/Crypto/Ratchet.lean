import Zodia.Lib.Symbolic

/-!
# The message ratchet

The KDF ratchet of `crypto/src/ratchet.rs`. A chain derives one message key per
message and then replaces its own key; a session ratchet holds a send chain and a
receive chain, both seeded from the session key under a context string of their own.

## Main results

* `chainKeyAt_ne` — chains seeded under different contexts never hold the same key,
  at any two positions.
* `messageKey_inj` — a message key determines the chain key and the counter bytes.
-/

namespace Zodia.Crypto

open Lib

variable {Key : Type*} {K : Kdf Key}

/-- The random nonce of one message. -/
abbrev Nonce := Vector UInt8 24

inductive RatchetError where
  | encrypt
  | decrypt
  | tooShort
  deriving DecidableEq, Repr

/-! ## One chain -/

/-- Ratchet state for one direction of a peer session. -/
structure RatchetChain (Key : Type*) where
  chainKey : Key
  counter : UInt64

def RatchetChain.new (K : Kdf Key) (sessionKey : Key) (context : String) : RatchetChain Key :=
  ⟨K.deriveKey context (K.asBytes sessionKey), 0⟩

/-- The counter in eight little-endian bytes. -/
def counterBytes (n : UInt64) : Bytes :=
  (List.range 8).map fun i => (n >>> (8 * UInt64.ofNat i)).toUInt8

@[simp] theorem length_counterBytes (n : UInt64) : (counterBytes n).length = 8 := by
  simp [counterBytes]

def messageKeyContext : String := "zodia ratchet message key"
def chainAdvanceContext : String := "zodia ratchet chain advance"

def messageKey (K : Kdf Key) (chainKey : Key) (counter : UInt64) : Key :=
  K.deriveKey messageKeyContext (K.asBytes chainKey ++ counterBytes counter)

/-- Derive the next message key and advance the chain. -/
def RatchetChain.advance (K : Kdf Key) (r : RatchetChain Key) : Key × RatchetChain Key :=
  (messageKey K r.chainKey r.counter,
    ⟨K.deriveKey chainAdvanceContext (K.asBytes r.chainKey), r.counter + 1⟩)

/-- Encrypt under the next message key; the frame is the nonce and the ciphertext.
The chain has advanced also when the cipher refuses the plaintext. -/
def RatchetChain.encrypt (K : Kdf Key) (C : Aead Key Nonce) (r : RatchetChain Key) (nonce : Nonce)
    (plaintext : Bytes) : Except RatchetError Bytes × RatchetChain Key :=
  let (key, next) := r.advance K
  match C.encrypt key nonce plaintext with
  | none => (.error .encrypt, next)
  | some ciphertext => (.ok (nonce.toList ++ ciphertext), next)

/-- Decrypt a frame under the next message key. A frame without room for a nonce
is refused before the chain advances. -/
def RatchetChain.decrypt (K : Kdf Key) (C : Aead Key Nonce) (r : RatchetChain Key)
    (frame : Bytes) : Except RatchetError Bytes × RatchetChain Key :=
  if h : frame.length < 24 then (.error .tooShort, r)
  else
    let nonce : Nonce := ⟨(frame.take 24).toArray, by simp; omega⟩
    let (key, next) := r.advance K
    match C.decrypt key nonce (frame.drop 24) with
    | none => (.error .decrypt, next)
    | some plaintext => (.ok plaintext, next)

/-! ## A session -/

/-- The send and receive chains of one side of a session. -/
structure SessionRatchet (Key : Type*) where
  send : RatchetChain Key
  recv : RatchetChain Key

/-- The context strings of the send and the receive chain. -/
def sessionContexts (initiator : Bool) : String × String :=
  if initiator then
    ("zodia ratchet initiator send chain", "zodia ratchet initiator recv chain")
  else
    ("zodia ratchet responder send chain", "zodia ratchet responder recv chain")

def SessionRatchet.new (K : Kdf Key) (sessionKey : Key) (initiator : Bool) : SessionRatchet Key :=
  let (sendCtx, recvCtx) := sessionContexts initiator
  ⟨.new K sessionKey sendCtx, .new K sessionKey recvCtx⟩

def SessionRatchet.encrypt (K : Kdf Key) (C : Aead Key Nonce) (r : SessionRatchet Key)
    (nonce : Nonce) (plaintext : Bytes) : Except RatchetError Bytes × SessionRatchet Key :=
  let (out, send) := r.send.encrypt K C nonce plaintext
  (out, { r with send })

def SessionRatchet.decrypt (K : Kdf Key) (C : Aead Key Nonce) (r : SessionRatchet Key)
    (frame : Bytes) : Except RatchetError Bytes × SessionRatchet Key :=
  let (out, recv) := r.recv.decrypt K C frame
  (out, { r with recv })

section SessionRatchet

variable {C : Aead Key Nonce} (r : SessionRatchet Key) (nonce : Nonce) (bytes : Bytes)

@[simp] theorem SessionRatchet.encrypt_fst :
    (r.encrypt K C nonce bytes).1 = (r.send.encrypt K C nonce bytes).1 := rfl
@[simp] theorem SessionRatchet.encrypt_send :
    (r.encrypt K C nonce bytes).2.send = (r.send.encrypt K C nonce bytes).2 := rfl
@[simp] theorem SessionRatchet.encrypt_recv :
    (r.encrypt K C nonce bytes).2.recv = r.recv := rfl
@[simp] theorem SessionRatchet.decrypt_fst :
    (r.decrypt K C bytes).1 = (r.recv.decrypt K C bytes).1 := rfl
@[simp] theorem SessionRatchet.decrypt_send :
    (r.decrypt K C bytes).2.send = r.send := rfl
@[simp] theorem SessionRatchet.decrypt_recv :
    (r.decrypt K C bytes).2.recv = (r.recv.decrypt K C bytes).2 := rfl

end SessionRatchet

/-! ## The keys of a chain -/

/-- The chain key after `n` advances of the chain seeded under `context`. -/
def chainKeyAt (K : Kdf Key) (sessionKey : Key) (context : String) : ℕ → Key
  | 0 => K.deriveKey context (K.asBytes sessionKey)
  | n + 1 => K.deriveKey chainAdvanceContext (K.asBytes (chainKeyAt K sessionKey context n))

/-- `r` is the chain of `context` after some number of advances. -/
def RatchetChain.SeededBy (K : Kdf Key) (sessionKey : Key) (context : String)
    (r : RatchetChain Key) : Prop :=
  ∃ n, r.chainKey = chainKeyAt K sessionKey context n

theorem RatchetChain.seededBy_new (sessionKey : Key) (context : String) :
    (RatchetChain.new K sessionKey context).SeededBy K sessionKey context := ⟨0, rfl⟩

theorem RatchetChain.SeededBy.advance {sessionKey : Key} {context : String} {r : RatchetChain Key}
    (h : r.SeededBy K sessionKey context) : (r.advance K).2.SeededBy K sessionKey context := by
  obtain ⟨n, hn⟩ := h
  exact ⟨n + 1, by simp [RatchetChain.advance, chainKeyAt, hn]⟩

theorem messageKey_inj (hK : K.Injective) {k k' : Key} {n n' : UInt64}
    (h : messageKey K k n = messageKey K k' n') : k = k' := by
  have input := (hK.deriveKey_inj h).2
  exact hK.asBytes_inj (List.append_inj' input (by simp)).1

/-- A chain keeps the context it was seeded under in every key it ever holds. -/
theorem chainKeyAt_ne (hK : K.Injective) {sessionKey : Key} {c c' : String} (hne : c ≠ c')
    (hc : c ≠ chainAdvanceContext) (hc' : c' ≠ chainAdvanceContext) (n m : ℕ) :
    chainKeyAt K sessionKey c n ≠ chainKeyAt K sessionKey c' m := by
  induction n generalizing m with
  | zero =>
    cases m with
    | zero => exact fun h => hne (hK.deriveKey_inj h).1
    | succ m => exact fun h => hc (hK.deriveKey_inj h).1
  | succ n ih =>
    cases m with
    | zero => exact fun h => hc' (hK.deriveKey_inj h).1.symm
    | succ m => exact fun h => ih m (hK.asBytes_inj (hK.deriveKey_inj h).2)

/-- A chain never holds the same key twice. -/
theorem chainKeyAt_inj (hK : K.Injective) {sessionKey : Key} {c : String}
    (hc : c ≠ chainAdvanceContext) {n m : ℕ}
    (h : chainKeyAt K sessionKey c n = chainKeyAt K sessionKey c m) : n = m := by
  induction n generalizing m with
  | zero =>
    cases m with
    | zero => rfl
    | succ m => exact absurd (hK.deriveKey_inj h).1 hc
  | succ n ih =>
    cases m with
    | zero => exact absurd (hK.deriveKey_inj h).1.symm hc
    | succ m => rw [ih (hK.asBytes_inj (hK.deriveKey_inj h).2)]

/-! ## Encryption and decryption of one frame -/

variable {C : Aead Key Nonce}

theorem RatchetChain.decrypt_short (r : RatchetChain Key) {frame : Bytes}
    (short : frame.length < 24) : r.decrypt K C frame = (.error .tooShort, r) := dif_pos short

/-- The chain advances before the frame is authenticated. -/
theorem RatchetChain.decrypt_long (r : RatchetChain Key) {frame : Bytes}
    (long : ¬ frame.length < 24) : (r.decrypt K C frame).2 = (r.advance K).2 := by
  simp only [RatchetChain.decrypt, RatchetChain.advance, dif_neg long]
  split <;> rfl

theorem RatchetChain.encrypt_snd (r : RatchetChain Key) (nonce : Nonce) (plaintext : Bytes) :
    (r.encrypt K C nonce plaintext).2 = (r.advance K).2 := by
  simp only [RatchetChain.encrypt, RatchetChain.advance]
  split <;> rfl

/-- A frame is its nonce and the ciphertext under the message key. -/
theorem RatchetChain.encrypt_ok {r : RatchetChain Key} {nonce : Nonce} {plaintext frame : Bytes}
    (ok : (r.encrypt K C nonce plaintext).1 = .ok frame) :
    ∃ ciphertext, C.encrypt (messageKey K r.chainKey r.counter) nonce plaintext =
      some ciphertext ∧ frame = nonce.toList ++ ciphertext := by
  simp only [RatchetChain.encrypt, RatchetChain.advance] at ok
  split at ok
  · cases ok
  · next ciphertext taken => exact ⟨ciphertext, taken, (Except.ok.inj ok).symm⟩

theorem RatchetChain.encrypt_long {r : RatchetChain Key} {nonce : Nonce} {plaintext frame : Bytes}
    (ok : (r.encrypt K C nonce plaintext).1 = .ok frame) : ¬ frame.length < 24 := by
  obtain ⟨ciphertext, -, rfl⟩ := RatchetChain.encrypt_ok ok
  simp

/-- Decrypting a nonce and a ciphertext is decrypting the ciphertext under the message key. -/
theorem RatchetChain.decrypt_append (r : RatchetChain Key) (nonce : Nonce) (ciphertext : Bytes) :
    (r.decrypt K C (nonce.toList ++ ciphertext)).1 =
      match C.decrypt (messageKey K r.chainKey r.counter) nonce ciphertext with
      | none => .error .decrypt
      | some plaintext => .ok plaintext := by
  have long : ¬ (nonce.toList ++ ciphertext).length < 24 := by simp
  have head : (⟨((nonce.toList ++ ciphertext).take 24).toArray, by simp⟩ : Nonce) = nonce := by
    simp [Vector.ext_iff]
  have rest : (nonce.toList ++ ciphertext).drop 24 = ciphertext := by simp
  simp only [RatchetChain.decrypt, RatchetChain.advance, dif_neg long, head, rest]
  cases C.decrypt (messageKey K r.chainKey r.counter) nonce ciphertext <;> rfl

/-- `frame` carries `plaintext` under the message key of some chain of `context`. -/
def Carries (K : Kdf Key) (C : Aead Key Nonce) (sessionKey : Key) (context : String)
    (plaintext frame : Bytes) : Prop :=
  ∃ (n : ℕ) (counter : UInt64) (nonce : Nonce) (ciphertext : Bytes),
    C.encrypt (messageKey K (chainKeyAt K sessionKey context n) counter) nonce plaintext =
      some ciphertext ∧ frame = nonce.toList ++ ciphertext

theorem RatchetChain.SeededBy.encrypt {sessionKey : Key} {context : String}
    {r : RatchetChain Key} (h : r.SeededBy K sessionKey context) (nonce : Nonce)
    (plaintext : Bytes) : (r.encrypt K C nonce plaintext).2.SeededBy K sessionKey context := by
  rw [RatchetChain.encrypt_snd]
  exact h.advance

theorem RatchetChain.SeededBy.encrypt_carries {sessionKey : Key} {context : String}
    {r : RatchetChain Key} (h : r.SeededBy K sessionKey context) {nonce : Nonce}
    {plaintext frame : Bytes} (ok : (r.encrypt K C nonce plaintext).1 = .ok frame) :
    Carries K C sessionKey context plaintext frame := by
  obtain ⟨n, hn⟩ := h
  obtain ⟨ciphertext, taken, rfl⟩ := RatchetChain.encrypt_ok ok
  exact ⟨n, r.counter, nonce, ciphertext, by rw [← hn]; exact taken, rfl⟩

theorem RatchetChain.SeededBy.decrypt {sessionKey : Key} {context : String}
    {r : RatchetChain Key} (h : r.SeededBy K sessionKey context) (frame : Bytes) :
    (r.decrypt K C frame).2.SeededBy K sessionKey context := by
  by_cases short : frame.length < 24
  · rw [RatchetChain.decrypt_short r short]
    exact h
  · rw [RatchetChain.decrypt_long r short]
    exact h.advance

/-- A chain seeded under another context rejects every frame of the first. -/
theorem RatchetChain.SeededBy.decrypt_foreign (hK : K.Injective) (hC : C.Ideal)
    {sessionKey : Key} {c c' : String} (hne : c ≠ c') (hc : c ≠ chainAdvanceContext)
    (hc' : c' ≠ chainAdvanceContext) {r : RatchetChain Key} (h : r.SeededBy K sessionKey c')
    {plaintext frame : Bytes} (carries : Carries K C sessionKey c plaintext frame) :
    (r.decrypt K C frame).1 = .error .decrypt := by
  obtain ⟨n, counter, nonce, ciphertext, hct, rfl⟩ := carries
  obtain ⟨m, hm⟩ := h
  have key_ne : messageKey K (chainKeyAt K sessionKey c n) counter ≠
      messageKey K r.chainKey r.counter := fun same =>
    chainKeyAt_ne hK hne hc hc' n m ((messageKey_inj hK same).trans hm)
  rw [RatchetChain.decrypt_append, hC.other_key hct key_ne]

end Zodia.Crypto
