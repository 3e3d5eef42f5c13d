import Mathlib.Data.Vector.Basic
import Mathlib.Logic.Function.Basic

/-!
# Ideal cryptographic primitives

Each primitive is a record of functions together with the laws a protocol relies
on. The outputs of the ideal key derivation and of the ideal hash are abstract
types: an injective function into a fixed number of bytes does not exist, so a
key is a value of its own kind that can be written out as bytes.
-/

namespace Zodia.Lib

/-- Byte strings of any length. -/
abbrev Bytes := List UInt8

/-- Public keys, secrets and digests of 32 bytes. -/
abbrev Bytes32 := Vector UInt8 32

instance : LawfulBEq Bytes32 := inferInstanceAs (LawfulBEq (Vector UInt8 32))

/-- Bytes that are 32 make up a value of 32 bytes. -/
theorem size_toArray_bytes {bytes : Bytes} (h : bytes.length = 32) : bytes.toArray.size = 32 := by
  rw [List.size_toArray, h]

/-! ## Diffie–Hellman -/

/-- A Diffie–Hellman function with secrets of type `Secret` and 32-byte public keys. -/
structure DiffieHellman (Secret : Type*) where
  publicKey : Secret → Bytes32
  diffieHellman : Secret → Bytes32 → Bytes32

/-- Both parties of an exchange compute the same value. -/
def DiffieHellman.Commutes {Secret : Type*} (D : DiffieHellman Secret) : Prop :=
  ∀ a b, D.diffieHellman a (D.publicKey b) = D.diffieHellman b (D.publicKey a)

/-! ## Key derivation -/

/-- A key derivation function: a context string and input bytes give a key. -/
structure Kdf (Key : Type*) where
  deriveKey : String → Bytes → Key
  asBytes : Key → Bytes

/-- The ideal derivation loses neither its context nor its input. -/
structure Kdf.Injective {Key : Type*} (K : Kdf Key) : Prop where
  deriveKey_inj : ∀ {c c' i i'}, K.deriveKey c i = K.deriveKey c' i' → c = c' ∧ i = i'
  asBytes_inj : ∀ {k k'}, K.asBytes k = K.asBytes k' → k = k'

/-! ## Authenticated encryption -/

/-- An authenticated cipher under a key and a nonce; encryption can refuse a plaintext. -/
structure Aead (Key Nonce : Type*) where
  encrypt : Key → Nonce → Bytes → Option Bytes
  decrypt : Key → Nonce → Bytes → Option Bytes

/-- A ciphertext opens to its plaintext under its own key, and under no other key. -/
structure Aead.Ideal {Key Nonce : Type*} (C : Aead Key Nonce) : Prop where
  correct : ∀ {k n p c}, C.encrypt k n p = some c → C.decrypt k n c = some p
  other_key : ∀ {k k' n p c}, C.encrypt k n p = some c → k ≠ k' → C.decrypt k' n c = none

/-! ## Signatures -/

/-- A signature scheme; a public key has to decode before it can verify. How strict `verify` is, is
up to whoever uses the scheme. -/
structure SignatureScheme (Secret VerifyingKey Digest Sig : Type*) where
  publicKey : Secret → Bytes32
  sign : Secret → Digest → Sig
  fromBytes : Bytes32 → Option VerifyingKey
  verify : VerifyingKey → Digest → Sig → Bool

section SignatureScheme

variable {Secret VerifyingKey Digest Sig : Type*}
  (S : SignatureScheme Secret VerifyingKey Digest Sig)

/-- Decode the key, then verify. -/
def SignatureScheme.accepts (pk : Bytes32) (payload : Digest) (sig : Sig) : Bool :=
  match S.fromBytes pk with
  | none => false
  | some vk => S.verify vk payload sig

/-- A signature is accepted exactly when the holder of the key made it for the payload,
and a signature made for one payload is not one for another. -/
structure SignatureScheme.Ideal : Prop where
  accepts_iff : ∀ {pk payload sig},
    S.accepts pk payload sig ↔ ∃ sk, S.publicKey sk = pk ∧ S.sign sk payload = sig
  sign_inj : ∀ {sk sk' m m'}, S.sign sk m = S.sign sk' m' → m = m'

end SignatureScheme

end Zodia.Lib
