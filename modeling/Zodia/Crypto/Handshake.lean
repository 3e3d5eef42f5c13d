import Zodia.Lib.Symbolic

/-!
# Session-key agreement

The consent exchange of `crypto/src/handshake.rs`. Each side holds a prekey and a
fresh ephemeral key, sends the two public halves, and derives the session key from
three Diffie–Hellman values concatenated in the order its own code computes them.

The second value of one side is the third of the other, so the two inputs of the
key derivation are the same bytes only when these two values coincide.
-/

namespace Zodia.Crypto

open Lib

variable {Secret Key : Type*} {D : DiffieHellman Secret} {K : Kdf Key}

/-! ## Key material -/

/-- The X25519 key material of one exchange: each public key is that of its secret. -/
structure LocalPrekeys (D : DiffieHellman Secret) where
  prekeySecret : Secret
  prekeyPublic : Bytes32
  ephemeralSecret : Secret
  ephemeralPublic : Bytes32
  prekey_matches : prekeyPublic = D.publicKey prekeySecret
  ephemeral_matches : ephemeralPublic = D.publicKey ephemeralSecret

/-- A fresh set of prekeys from the two secrets the random generator yields. -/
def LocalPrekeys.generate (D : DiffieHellman Secret) (prekeySecret ephemeralSecret : Secret) :
    LocalPrekeys D where
  prekeySecret := prekeySecret
  prekeyPublic := D.publicKey prekeySecret
  ephemeralSecret := ephemeralSecret
  ephemeralPublic := D.publicKey ephemeralSecret
  prekey_matches := rfl
  ephemeral_matches := rfl

/-- The public prekey material received in a peer's consent blob. -/
structure PeerPrekeys where
  prekey : Bytes32
  ephemeral : Bytes32

/-- The public halves, as a consent blob carries them to the peer. -/
def LocalPrekeys.bundle (l : LocalPrekeys D) : PeerPrekeys :=
  ⟨l.prekeyPublic, l.ephemeralPublic⟩

/-! ## The session key -/

/-- The context string of the session key, a wire constant. -/
def sessionKeyContext : String := "zodia.net 2024 tier-1 session key v1"

/-- Ephemeral with ephemeral, our ephemeral with their prekey, our prekey with
their ephemeral: the 96 bytes of input keying material. -/
def sessionInput (D : DiffieHellman Secret) (l : LocalPrekeys D) (peer : PeerPrekeys) : Bytes :=
  let dh1 := D.diffieHellman l.ephemeralSecret peer.ephemeral
  let dh2 := D.diffieHellman l.ephemeralSecret peer.prekey
  let dh3 := D.diffieHellman l.prekeySecret peer.ephemeral
  dh1.toList ++ dh2.toList ++ dh3.toList

def deriveSessionKey (D : DiffieHellman Secret) (K : Kdf Key) (l : LocalPrekeys D)
    (peer : PeerPrekeys) : Key :=
  K.deriveKey sessionKeyContext (sessionInput D l peer)

/-- Three 32-byte blocks can be read back from their concatenation. -/
theorem blocks_inj {a b c a' b' c' : Bytes32} :
    a.toList ++ b.toList ++ c.toList = a'.toList ++ b'.toList ++ c'.toList ↔
      a = a' ∧ b = b' ∧ c = c' := by
  constructor
  · intro h
    obtain ⟨hab, hc⟩ := List.append_inj h (by simp)
    obtain ⟨ha, hb⟩ := List.append_inj hab (by simp)
    exact ⟨Vector.toList_inj.1 ha, Vector.toList_inj.1 hb, Vector.toList_inj.1 hc⟩
  · rintro ⟨rfl, rfl, rfl⟩
    rfl

theorem deriveSessionKey_eq_iff_input (hK : K.Injective) {l l' : LocalPrekeys D}
    {p p' : PeerPrekeys} :
    deriveSessionKey D K l p = deriveSessionKey D K l' p' ↔
      sessionInput D l p = sessionInput D l' p' :=
  ⟨fun h => (hK.deriveKey_inj h).2, fun h => congrArg _ h⟩

/-- The two sides of an exchange agree exactly when the two mixed values coincide:
A's ephemeral with B's prekey, and B's ephemeral with A's prekey. -/
theorem deriveSessionKey_agree_iff (hD : D.Commutes) (hK : K.Injective) (A B : LocalPrekeys D) :
    deriveSessionKey D K A B.bundle = deriveSessionKey D K B A.bundle ↔
      D.diffieHellman A.ephemeralSecret B.prekeyPublic =
        D.diffieHellman B.ephemeralSecret A.prekeyPublic := by
  rw [deriveSessionKey_eq_iff_input hK]
  simp only [sessionInput, LocalPrekeys.bundle, blocks_inj, A.ephemeral_matches,
    B.ephemeral_matches, A.prekey_matches, B.prekey_matches]
  constructor
  · rintro ⟨-, mixed, -⟩
    exact mixed
  · intro mixed
    refine ⟨hD _ _, mixed, ?_⟩
    calc D.diffieHellman A.prekeySecret (D.publicKey B.ephemeralSecret)
        = D.diffieHellman B.ephemeralSecret (D.publicKey A.prekeySecret) := hD _ _
      _ = D.diffieHellman A.ephemeralSecret (D.publicKey B.prekeySecret) := mixed.symm
      _ = D.diffieHellman B.prekeySecret (D.publicKey A.ephemeralSecret) := hD _ _

/-- Prekeys 2 and 4 with ephemerals 3 and 6: both mixed values are 12. -/
theorem deriveSessionKey_agree_mixed :
    let A := LocalPrekeys.generate byteDh 2 3
    let B := LocalPrekeys.generate byteDh 4 6
    deriveSessionKey byteDh symbolicKdf A B.bundle =
      deriveSessionKey byteDh symbolicKdf B A.bundle :=
  (deriveSessionKey_agree_iff byteDh_commutes symbolicKdf_injective _ _).2 (by decide)

/-- Prekeys 2 and 5 with ephemerals 3 and 7: the mixed values are 15 and 14. -/
theorem deriveSessionKey_disagree :
    let A := LocalPrekeys.generate byteDh 2 3
    let B := LocalPrekeys.generate byteDh 5 7
    byteDh.Commutes ∧ symbolicKdf.Injective ∧
      deriveSessionKey byteDh symbolicKdf A B.bundle ≠
        deriveSessionKey byteDh symbolicKdf B A.bundle := by
  refine ⟨byteDh_commutes, symbolicKdf_injective, fun agree => ?_⟩
  have input := (deriveSessionKey_eq_iff_input symbolicKdf_injective).1 agree
  exact absurd input (by decide)

end Zodia.Crypto
