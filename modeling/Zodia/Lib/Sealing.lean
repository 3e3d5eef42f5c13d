import Zodia.Lib.Symbolic

/-!
# Authentic ciphers

What an authenticated cipher promises about ciphertexts that nobody made. A key is derived for one
message, so a message that opens was sealed under its own key and nonce, and changing a byte of a
ciphertext does not give another one.

## Main definitions

* `Aead.Authentic` — the promises.
* `sealingAead` — a cipher that keeps them.

## Main results

* `Aead.Authentic.decrypt_set` — a ciphertext with a changed byte does not open.
* `Aead.Authentic.decrypt_other` — nor does one under another key or nonce.
-/

namespace Zodia.Lib

/-- Every plaintext is sealed, with a tag of at least 16 bytes. What opens was sealed under that
key and nonce and under no others, and no two ciphertexts under them differ in one byte only. -/
structure Aead.Authentic {Key Nonce : Type*} (C : Aead Key Nonce) : Prop where
  seals : ∀ k n p, ∃ c, C.encrypt k n p = some c ∧ p.length + 16 ≤ c.length
  opens_sealed : ∀ {k n c p}, C.decrypt k n c = some p → C.encrypt k n p = some c
  encrypt_inj : ∀ {k k' n n' p p' c}, C.encrypt k n p = some c → C.encrypt k' n' p' = some c →
    k = k' ∧ n = n'
  no_neighbour : ∀ {k n p p' c i b}, C.encrypt k n p = some c →
    C.encrypt k n p' = some (c.set i b) → c.set i b = c

namespace Aead.Authentic

variable {Key Nonce : Type*} {C : Aead Key Nonce} (auth : C.Authentic) {k k' : Key} {n n' : Nonce}
  {p c : Bytes}

include auth

theorem decrypt_other (encrypted : C.encrypt k n p = some c) (other : k ≠ k' ∨ n ≠ n') :
    C.decrypt k' n' c = none := by
  rw [Option.eq_none_iff_forall_ne_some]
  intro p' opened
  obtain ⟨rfl, rfl⟩ := auth.encrypt_inj encrypted (auth.opens_sealed opened)
  exact other.elim (fun ne => ne rfl) fun ne => ne rfl

theorem decrypt_set (encrypted : C.encrypt k n p = some c) {i : ℕ} {b : UInt8}
    (changed : c.set i b ≠ c) : C.decrypt k n (c.set i b) = none := by
  rw [Option.eq_none_iff_forall_ne_some]
  intro p' opened
  exact changed (auth.no_neighbour encrypted (auth.opens_sealed opened))

end Aead.Authentic

/-! ## A cipher that keeps the promises -/

variable {N : ℕ}

/-- The key and the nonce, in front of the plaintext. -/
def sealHead (k : Bytes) (n : Vector UInt8 N) : Bytes := List.replicate 16 0 ++ pair k n.toList

/-- A ciphertext holds its key, its nonce and its plaintext twice. -/
def sealingAead (N : ℕ) : Aead Bytes (Vector UInt8 N) where
  encrypt k n p := some (sealHead k n ++ (p ++ p))
  decrypt k n c :=
    let tail := c.drop (sealHead k n).length
    let p := tail.take (tail.length / 2)
    if c = sealHead k n ++ (p ++ p) then some p else none

theorem sealHead_inj {k k' : Bytes} {n n' : Vector UInt8 N} {p p' : Bytes}
    (same : sealHead k n ++ p = sealHead k' n' ++ p') : k = k' ∧ n = n' := by
  simp only [sealHead, List.append_assoc, ← pair_append, List.append_cancel_left_eq] at same
  obtain ⟨rfl, rest⟩ := pair_inj same
  obtain ⟨nonce, -⟩ := List.append_inj rest (by simp)
  exact ⟨rfl, Vector.toList_inj.1 nonce⟩

theorem sealingAead_encrypt {k : Bytes} {n : Vector UInt8 N} {p c : Bytes} :
    (sealingAead N).encrypt k n p = some c ↔ sealHead k n ++ (p ++ p) = c := Option.some_inj

theorem sealingAead_decrypt {k : Bytes} {n : Vector UInt8 N} {p c : Bytes} :
    (sealingAead N).decrypt k n c = some p ↔ sealHead k n ++ (p ++ p) = c := by
  simp only [sealingAead, Option.ite_none_right_eq_some, Option.some.injEq]
  constructor
  · rintro ⟨shape, rfl⟩
    exact shape.symm
  · rintro rfl
    have half : (p.length + p.length) / 2 = p.length := by omega
    simp [half]

/-- A byte string that is written twice has no neighbour of that kind. -/
theorem append_self_set {p p' : Bytes} {i : ℕ} {b : UInt8} (same : p' ++ p' = (p ++ p).set i b) :
    p' = p := by
  have length : p'.length = p.length := by
    have lengths := congrArg List.length same
    simp only [List.length_append, List.length_set] at lengths
    omega
  by_cases first : i < p.length
  · rw [List.set_append_left _ _ first] at same
    exact (List.append_inj same (by simpa using length)).2
  · rw [List.set_append_right _ _ (by omega)] at same
    exact (List.append_inj same length).1

theorem sealingAead_ideal (N : ℕ) : (sealingAead N).Ideal where
  correct encrypted := sealingAead_decrypt.2 (sealingAead_encrypt.1 encrypted)
  other_key {k k' n p c} encrypted ne := by
    rw [Option.eq_none_iff_forall_ne_some]
    intro p' opened
    have same := (sealingAead_encrypt.1 encrypted).trans (sealingAead_decrypt.1 opened).symm
    exact ne (sealHead_inj same).1

theorem sealingAead_authentic (N : ℕ) : (sealingAead N).Authentic where
  seals k n p := ⟨_, rfl, by simp [sealHead]; omega⟩
  opens_sealed opened := sealingAead_encrypt.2 (sealingAead_decrypt.1 opened)
  encrypt_inj first second :=
    sealHead_inj ((sealingAead_encrypt.1 first).trans (sealingAead_encrypt.1 second).symm)
  no_neighbour {k n p p' c i b} first second := by
    rw [sealingAead_encrypt] at first second
    subst first
    rw [← second]
    by_cases head : i < (sealHead k n).length
    · -- the head does not change
      rw [List.set_append_left _ _ head] at second
      rw [(List.append_inj second (by simp)).2]
    · rw [List.set_append_right _ _ (by omega), List.append_cancel_left_eq] at second
      rw [append_self_set second]

end Zodia.Lib
