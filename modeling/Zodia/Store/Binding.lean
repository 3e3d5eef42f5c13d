import Zodia.Store.Interpretations

/-!
# What a signature on an interpretation binds

The payload of an author's signature is the log id, the hash of the key string and
the body written one after the other. The hash fixes their concatenation, and with
it the pair only where no other pair has the same concatenation.
-/

namespace Zodia.Store

open Lib

variable {Digest Sig Secret VerifyingKey : Type*} {hash : Hash Digest}

/-- The log id fixes the concatenation of the key string and the body. -/
theorem deriveLogId_eq_iff (hash_inj : Function.Injective hash) {k b k' b' : String} :
    deriveLogId hash k b = deriveLogId hash k' b' ↔ k ++ b = k' ++ b' := by
  simp only [deriveLogId, hash_inj.eq_iff, ← utf8_append]
  exact ⟨utf8_inj, congrArg utf8⟩

/-- `sig` is what the holder of `pk` made for the key string and body of `pair`. -/
def SignedFor (hash : Hash Digest) (S : SignatureScheme Secret VerifyingKey Digest Sig)
    (pk : Bytes32) (pair : String × String) (sig : Sig) : Prop :=
  ∃ sk, S.publicKey sk = pk ∧ S.sign sk (signingPayload hash pair.1 pair.2) = sig

variable [DecidableEq Digest] {S : SignatureScheme Secret VerifyingKey Digest Sig}

/-- The receiver takes the pair with this key and signature. -/
def Accepts (hash : Hash Digest) (S : SignatureScheme Secret VerifyingKey Digest Sig)
    (pair : String × String) (pk : Bytes32) (sig : Sig) : Prop :=
  ∃ t now t', insertReceived hash S t pair.1 pair.2 pk sig now = .ok t'

theorem accepts_iff (hS : S.Ideal) {pair : String × String} {pk : Bytes32} {sig : Sig} :
    Accepts hash S pair pk sig ↔ SignedFor hash S pk pair sig := by
  unfold Accepts SignedFor
  rw [signingPayload, ← hS.accepts_iff]
  constructor
  · rintro ⟨t, now, t', h⟩
    by_contra refused
    simp [insertReceived, refused] at h
  · intro h
    exact ⟨Table.empty, 0, _, by simp only [insertReceived, h, if_true]; rfl⟩

/-- The pair presented and the pair signed are told apart: what is accepted was made
by the holder of the key, what was made for `signed` is accepted for no other pair, and
the two pairs have one log id only when they are one. -/
structure Binds (hash : Hash Digest) (S : SignatureScheme Secret VerifyingKey Digest Sig)
    (presented signed : String × String) : Prop where
  by_holder : ∀ pk sig, Accepts hash S presented pk sig → SignedFor hash S pk presented sig
  for_signed : ∀ pk pk' sig, SignedFor hash S pk' signed sig →
    Accepts hash S presented pk sig → presented = signed
  logId : deriveLogId hash presented.1 presented.2 = deriveLogId hash signed.1 signed.2 →
    presented = signed

/-- A signature binds its pair against another pair exactly when the two do not differ
by the boundary between key string and body alone. -/
theorem insertReceived_binds_iff (hash_inj : Function.Injective hash) (hS : S.Ideal)
    (presented signed : String × String) :
    Binds hash S presented signed ↔
      (presented.1 ++ presented.2 = signed.1 ++ signed.2 → presented = signed) := by
  constructor
  · intro h same
    exact h.logId ((deriveLogId_eq_iff hash_inj).2 same)
  · intro apart
    refine ⟨fun pk sig => (accepts_iff hS).1, ?_, fun same => ?_⟩
    · rintro pk pk' sig ⟨sk', -, rfl⟩ accepted
      obtain ⟨sk, -, same⟩ := (accepts_iff hS).1 accepted
      exact apart ((deriveLogId_eq_iff hash_inj).1 (hS.sign_inj same))
    · exact apart ((deriveLogId_eq_iff hash_inj).1 same)

/-- Two bodies for one key are told apart. -/
theorem insertReceived_binds_bodies :
    Binds id symbolicSignatures ("house_transit:sun:1", "a") ("house_transit:sun:1", "b") :=
  (insertReceived_binds_iff Function.injective_id symbolicSignatures_ideal _ _).2
    fun same => absurd same (by decide)

/-- The signature on the tenth house with `" rises"` passes for the first house with
`"0 rises"`. -/
theorem insertReceived_moves_boundary :
    let presented := ("house_transit:sun:1", "0 rises")
    let signed := ("house_transit:sun:10", " rises")
    let pk := symbolicSignatures.publicKey 7
    let sig := symbolicSignatures.sign 7 (signingPayload id signed.1 signed.2)
    Function.Injective (id : Hash Bytes) ∧ symbolicSignatures.Ideal ∧
      SignedFor id symbolicSignatures pk signed sig ∧
      Accepts id symbolicSignatures presented pk sig ∧
      ¬ Binds id symbolicSignatures presented signed := by
  intro presented signed pk sig
  have made : SignedFor id symbolicSignatures pk signed sig := ⟨7, rfl, rfl⟩
  have same : deriveLogId id signed.1 signed.2 = deriveLogId id presented.1 presented.2 :=
    (deriveLogId_eq_iff Function.injective_id).2 (by decide)
  have passes : Accepts id symbolicSignatures presented pk sig :=
    (accepts_iff symbolicSignatures_ideal).2 ⟨7, rfl, congrArg _ same.symm⟩
  refine ⟨Function.injective_id, symbolicSignatures_ideal, made, passes, fun h => ?_⟩
  exact absurd (h.for_signed pk pk sig made passes) (by decide)

end Zodia.Store
