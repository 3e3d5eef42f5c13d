import Zodia.Lib.Primitives
import Mathlib.Tactic.Ring

/-!
# Symbolic instances of the ideal primitives

The laws of `Zodia.Lib.Primitives` hold together: a derived key is the pair of its
context and its input, a ciphertext is the pair of its key and its plaintext, and
the Diffie–Hellman exchange multiplies two bytes. They are executable, so that a
result stated for every ideal primitive can be tried on a concrete one.
-/

namespace Zodia.Lib

/-! ## Pairs of byte strings -/

/-- `a` and `b` in one byte string from which both can be read back. -/
def pair (a b : Bytes) : Bytes := a.flatMap (fun x => [1, x]) ++ 0 :: b

theorem pair_append (a b c : Bytes) : pair a (b ++ c) = pair a b ++ c := by simp [pair]

theorem pair_inj {a b a' b' : Bytes} (h : pair a b = pair a' b') : a = a' ∧ b = b' := by
  induction a generalizing a' with
  | nil =>
    cases a' with
    | nil => simpa [pair] using h
    | cons x a' => simp [pair] at h
  | cons x a ih =>
    cases a' with
    | nil => simp [pair] at h
    | cons y a' =>
      simp only [pair, List.flatMap_cons, List.cons_append, List.nil_append,
        List.cons.injEq, true_and] at h
      obtain ⟨rfl, rest⟩ := h
      obtain ⟨rfl, rfl⟩ := ih rest
      exact ⟨rfl, rfl⟩

/-! ## Key derivation and encryption -/

/-- The bytes of a string in UTF-8. -/
def utf8 (s : String) : Bytes := s.toByteArray.data.toList

theorem utf8_append (s t : String) : utf8 (s ++ t) = utf8 s ++ utf8 t := by
  simp [utf8]

theorem utf8_inj {s t : String} (h : utf8 s = utf8 t) : s = t :=
  String.toByteArray_inj.1 (ByteArray.ext (Array.toList_inj.1 h))

/-- A key is the record of how it was derived. -/
def symbolicKdf : Kdf Bytes where
  deriveKey c i := pair (utf8 c) i
  asBytes k := k

theorem symbolicKdf_injective : symbolicKdf.Injective where
  deriveKey_inj h := by
    obtain ⟨hc, hi⟩ := pair_inj h
    exact ⟨utf8_inj hc, hi⟩
  asBytes_inj h := h

/-- A ciphertext carries its key, and opens for whoever presents that key. -/
def symbolicAead (Nonce : Type*) : Aead Bytes Nonce where
  encrypt k _ p := some (pair k p)
  decrypt k _ c := if pair k [] <+: c then some (c.drop (pair k []).length) else none

theorem symbolicAead_ideal (Nonce : Type*) : (symbolicAead Nonce).Ideal where
  correct := by
    rintro k n p c h
    obtain rfl : pair k p = c := by simpa [symbolicAead] using h
    have split : pair k p = pair k [] ++ p := pair_append k [] p
    simp [symbolicAead, split]
  other_key := by
    rintro k k' n p c h hne
    obtain rfl : pair k p = c := by simpa [symbolicAead] using h
    have foreign : ¬ pair k' [] <+: pair k p := by
      rintro ⟨q, hq⟩
      rw [← pair_append] at hq
      exact hne (pair_inj hq).1.symm
    simp [symbolicAead, foreign]

/-! ## Signatures -/

/-- A signature names its secret and its payload. -/
def symbolicSignatures : SignatureScheme UInt8 Bytes32 Bytes (UInt8 × Bytes) where
  publicKey sk := Vector.replicate 32 sk
  sign sk m := (sk, m)
  fromBytes pk := some pk
  verify vk m sig := decide (Vector.replicate 32 sig.1 = vk ∧ sig.2 = m)

theorem symbolicSignatures_ideal : symbolicSignatures.Ideal where
  accepts_iff := by
    rintro pk payload ⟨sk, m⟩
    simp only [SignatureScheme.accepts, symbolicSignatures, decide_eq_true_eq, Prod.mk.injEq]
    constructor
    · rintro ⟨rfl, rfl⟩
      exact ⟨sk, rfl, rfl, rfl⟩
    · rintro ⟨_, rfl, rfl, rfl⟩
      exact ⟨rfl, rfl⟩
  sign_inj h := (Prod.mk.inj h).2

/-! ## Diffie–Hellman -/

/-- Secrets are bytes, and the exchange multiplies the two secrets. -/
def byteDh : DiffieHellman UInt8 where
  publicKey s := Vector.replicate 32 s
  diffieHellman s p := Vector.replicate 32 (s * p[0])

theorem byteDh_commutes : byteDh.Commutes := by
  intro a b
  simp [byteDh, UInt8.mul_comm]

end Zodia.Lib
