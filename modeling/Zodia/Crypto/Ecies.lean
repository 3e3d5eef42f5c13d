import Zodia.Crypto.Ratchet

/-!
# Encryption to a relay key

The integrated encryption of `crypto/src/ecies.rs`: the sender agrees on a key with the relay
key of the recipient through an ephemeral key, and encrypts under it. The recipient's public key
is all a sender needs.

## Main results

* `eciesDecrypt_eciesEncrypt` — the holder of the relay key opens what was encrypted to it.
* `eq_of_eciesDecrypt` — whatever key it was encrypted to, nobody opens it to anything else.
-/

namespace Zodia.Crypto

open Lib

variable {Secret Key : Type*} (D : DiffieHellman Secret) (K : Kdf Key) (C : Aead Key Nonce)

/-- The context string of the key derivation, a wire constant. -/
def eciesContext : String := "zodia ecies v1"

def eciesKey (shared ekPub destPk : Bytes32) : Key :=
  K.deriveKey eciesContext (shared.toList ++ ekPub.toList ++ destPk.toList)

/-- Encrypt to the holder of `destRelayPk`: the ephemeral public key, the nonce and the
ciphertext. -/
def eciesEncrypt (destRelayPk : Bytes32) (plaintext : Bytes) (ek : Secret) (nonce : Nonce) :
    Option Bytes :=
  let ekPub := D.publicKey ek
  let key := eciesKey K (D.diffieHellman ek destRelayPk) ekPub destRelayPk
  (C.encrypt key nonce plaintext).map fun ciphertext => ekPub.toList ++ nonce.toList ++ ciphertext

theorem size_toArray_take {l : Bytes} {n : ℕ} (h : n ≤ l.length) : (l.take n).toArray.size = n := by
  rw [List.size_toArray, List.length_take, Nat.min_eq_left h]

theorem size_toArray_take_drop {l : Bytes} {m n : ℕ} (h : m + n ≤ l.length) :
    ((l.drop m).take n).toArray.size = n := by
  apply size_toArray_take
  rw [List.length_drop]
  omega

/-- Decrypt with the relay secret. -/
def eciesDecrypt (ourRelaySk : Secret) (payload : Bytes) : Except RatchetError Bytes :=
  if h : payload.length < 72 then .error .decrypt
  else
    let ekPub : Bytes32 :=
      ⟨(payload.take 32).toArray, size_toArray_take (Nat.le_trans (by decide) (Nat.le_of_not_lt h))⟩
    let nonce : Nonce :=
      ⟨((payload.drop 32).take 24).toArray,
        size_toArray_take_drop (Nat.le_trans (by decide) (Nat.le_of_not_lt h))⟩
    let ourPk := D.publicKey ourRelaySk
    let key := eciesKey K (D.diffieHellman ourRelaySk ekPub) ekPub ourPk
    match C.decrypt key nonce (payload.drop 56) with
    | none => .error .decrypt
    | some plaintext => .ok plaintext

variable {D K C}

/-- The parts of a payload are read where they were written. -/
theorem eciesDecrypt_append (sk : Secret) (ekPub : Bytes32) (nonce : Nonce) {ciphertext : Bytes}
    (tagged : 16 ≤ ciphertext.length) :
    eciesDecrypt D K C sk (ekPub.toList ++ nonce.toList ++ ciphertext) =
      match C.decrypt (eciesKey K (D.diffieHellman sk ekPub) ekPub (D.publicKey sk)) nonce
        ciphertext with
      | none => .error .decrypt
      | some plaintext => .ok plaintext := by
  have first : (ekPub.toList ++ nonce.toList ++ ciphertext).take 32 = ekPub.toList := by
    rw [List.append_assoc, List.take_left' (by simp)]
  have middle : ((ekPub.toList ++ nonce.toList ++ ciphertext).drop 32).take 24 =
      nonce.toList := by
    rw [List.append_assoc, List.drop_left' (by simp), List.take_left' (by simp)]
  have last : (ekPub.toList ++ nonce.toList ++ ciphertext).drop 56 = ciphertext := by
    rw [List.drop_left' (by simp)]
  have long : ¬ (ekPub.toList ++ nonce.toList ++ ciphertext).length < 72 := by
    simp only [List.length_append, Vector.length_toList]
    omega
  rw [eciesDecrypt, dif_neg long]
  simp only [first, middle, last, Vector.toArray_toList]

/-- What is encrypted to a relay key opens with its secret: every ciphertext holds an
authentication tag of 16 bytes, so the payload has the 72 bytes it needs. -/
theorem eciesDecrypt_eciesEncrypt (hD : D.Commutes) (hC : C.Ideal) {sk ek : Secret}
    {nonce : Nonce} {plaintext payload : Bytes}
    (h : eciesEncrypt D K C (D.publicKey sk) plaintext ek nonce = some payload)
    (tagged : 72 ≤ payload.length) :
    eciesDecrypt D K C sk payload = .ok plaintext := by
  obtain ⟨ciphertext, encrypted, rfl⟩ := Option.map_eq_some_iff.1 h
  simp only [List.length_append, Vector.length_toList] at tagged
  have opened := hC.correct encrypted
  rw [hD ek sk] at opened
  rw [eciesDecrypt_append sk _ nonce (by omega), opened]

/-- A payload opens to what was encrypted or not at all, whatever key it was encrypted to. -/
theorem eq_of_eciesDecrypt (hC : C.Ideal) {sk ek : Secret} {relayPk : Bytes32} {nonce : Nonce}
    {plaintext payload opened : Bytes}
    (h : eciesEncrypt D K C relayPk plaintext ek nonce = some payload)
    (read : eciesDecrypt D K C sk payload = .ok opened) : opened = plaintext := by
  obtain ⟨ciphertext, encrypted, rfl⟩ := Option.map_eq_some_iff.1 h
  by_cases tagged : 16 ≤ ciphertext.length
  · rw [eciesDecrypt_append sk _ nonce tagged] at read
    by_cases same : eciesKey K (D.diffieHellman ek relayPk) (D.publicKey ek) relayPk =
        eciesKey K (D.diffieHellman sk (D.publicKey ek)) (D.publicKey ek) (D.publicKey sk)
    · rw [← same, hC.correct encrypted] at read
      exact (Except.ok.inj read).symm
    · rw [hC.other_key encrypted same] at read
      cases read
  · have short : (D.publicKey ek).toList.length + nonce.toList.length + ciphertext.length < 72 := by
      simp only [Vector.length_toList]
      omega
    rw [eciesDecrypt, dif_pos (by simpa only [List.length_append] using short)] at read
    cases read

end Zodia.Crypto
