import Zodia.Crypto.Handshake
import Zodia.Crypto.Ratchet

/-!
# The consent state of one peer

`ConsentState` of `crypto/src/lib.rs`: the level, the key material and the session with one peer.
The first accepted exchange consumes the local prekeys and starts the ratchet; the calls after it
move the two chains. A failed `expect` ends the run.

## Main results

* `ConsentState.run_new` — the state after any calls, and which calls end the run.
-/

namespace Zodia.Crypto

open Lib

variable {Secret Key Identity Birth : Type*} {D : DiffieHellman Secret} {K : Kdf Key}
  {C : Aead Key Nonce}

/-! ## The state and its calls -/

inductive ConsentError where
  | outOfOrder (required requested : ℕ)
  | crypto (e : RatchetError)
  deriving DecidableEq

/-- Full consent and key state for one peer relationship. -/
structure ConsentState (D : DiffieHellman Secret) (Key Identity Birth : Type*) where
  level : ℕ
  identity : Identity
  prekeys : Option (LocalPrekeys D)
  peerIdentity : Option Bytes32
  peerBirth : Option Birth
  ratchet : Option (SessionRatchet Key)

/-- What the caller passes on from the blob of the peer. -/
structure PeerOffer (Birth : Type*) where
  prekeys : PeerPrekeys
  birth : Birth
  identity : Bytes32
  initiator : Bool

namespace ConsentState

/-- A fresh state at level 0. -/
def new (identity : Identity) (own : LocalPrekeys D) : ConsentState D Key Identity Birth where
  level := 0
  identity := identity
  prekeys := some own
  peerIdentity := none
  peerBirth := none
  ratchet := none

/-- The public prekeys; `none` is the panic once they have been consumed. -/
def prekeyBundle (s : ConsentState D Key Identity Birth) : Option PeerPrekeys :=
  s.prekeys.map LocalPrekeys.bundle

/-- Advance to level 1; `none` is the panic at level 0 without prekeys. -/
def acceptConsent (K : Kdf Key) (s : ConsentState D Key Identity Birth) (offer : PeerOffer Birth) :
    Option (Except ConsentError Unit × ConsentState D Key Identity Birth) :=
  if s.level ≠ 0 then some (.error (.outOfOrder 0 1), s)
  else
    s.prekeys.map fun own =>
      let sessionKey := deriveSessionKey D K own offer.prekeys
      (.ok (),
        { s with
          prekeys := none
          ratchet := some (.new K sessionKey offer.initiator)
          peerBirth := some offer.birth
          peerIdentity := some offer.identity
          level := 1 })

/-- Advance to level 2. -/
def acceptVoice (s : ConsentState D Key Identity Birth) :
    Except ConsentError Unit × ConsentState D Key Identity Birth :=
  if s.level < 1 then (.error (.outOfOrder 1 2), s) else (.ok (), { s with level := 2 })

def encrypt (K : Kdf Key) (C : Aead Key Nonce) (s : ConsentState D Key Identity Birth)
    (nonce : Nonce) (plaintext : Bytes) :
    Except ConsentError Bytes × ConsentState D Key Identity Birth :=
  match s.ratchet with
  | none => (.error (.outOfOrder 1 1), s)
  | some ratchet =>
    let (out, ratchet) := ratchet.encrypt K C nonce plaintext
    (out.mapError .crypto, { s with ratchet := some ratchet })

def decrypt (K : Kdf Key) (C : Aead Key Nonce) (s : ConsentState D Key Identity Birth)
    (frame : Bytes) : Except ConsentError Bytes × ConsentState D Key Identity Birth :=
  match s.ratchet with
  | none => (.error (.outOfOrder 1 1), s)
  | some ratchet =>
    let (out, ratchet) := ratchet.decrypt K C frame
    (out.mapError .crypto, { s with ratchet := some ratchet })

end ConsentState

/-! ## Runs -/

/-- A call of a public method, with the nonce that an encryption draws. -/
inductive ConsentCall (Birth : Type*) where
  | prekeyBundle
  | acceptConsent (offer : PeerOffer Birth)
  | acceptVoice
  | encrypt (nonce : Nonce) (plaintext : Bytes)
  | decrypt (frame : Bytes)

namespace ConsentCall

def isBundle : ConsentCall Birth → Bool
  | prekeyBundle => true
  | _ => false

def isVoice : ConsentCall Birth → Bool
  | acceptVoice => true
  | _ => false

def isEncrypt : ConsentCall Birth → Bool
  | encrypt _ _ => true
  | _ => false

/-- A decryption whose frame has room for a nonce. -/
def isLongDecrypt : ConsentCall Birth → Bool
  | decrypt frame => ¬ frame.length < 24
  | _ => false

/-- The first accepted exchange, and the calls after it. -/
def firstExchange : List (ConsentCall Birth) → Option (PeerOffer Birth × List (ConsentCall Birth))
  | [] => none
  | acceptConsent offer :: calls => some (offer, calls)
  | prekeyBundle :: calls | acceptVoice :: calls | encrypt _ _ :: calls | decrypt _ :: calls =>
    firstExchange calls

end ConsentCall

namespace ConsentState

/-- The state after a call, if it returns. -/
def step (K : Kdf Key) (C : Aead Key Nonce) (s : ConsentState D Key Identity Birth) :
    ConsentCall Birth → Option (ConsentState D Key Identity Birth)
  | .prekeyBundle => s.prekeyBundle.map fun _ => s
  | .acceptConsent offer => (s.acceptConsent K offer).map Prod.snd
  | .acceptVoice => some s.acceptVoice.2
  | .encrypt nonce plaintext => some (s.encrypt K C nonce plaintext).2
  | .decrypt frame => some (s.decrypt K C frame).2

/-- The state after a list of calls, if they all return. -/
def run (K : Kdf Key) (C : Aead Key Nonce) (s : ConsentState D Key Identity Birth)
    (calls : List (ConsentCall Birth)) : Option (ConsentState D Key Identity Birth) :=
  calls.foldlM (step K C) s

end ConsentState

/-- The chain after `n` message keys. -/
def RatchetChain.advances (K : Kdf Key) (n : ℕ) (r : RatchetChain Key) : RatchetChain Key :=
  (fun r => (r.advance K).2)^[n] r

theorem RatchetChain.advances_succ (n : ℕ) (r : RatchetChain Key) :
    r.advances K (n + 1) = (r.advance K).2.advances K n := Function.iterate_succ_apply _ _ _

namespace ConsentState

/-- What the calls after the exchange make of the state: the level, and how often each chain has
moved. -/
def later (K : Kdf Key) (s : ConsentState D Key Identity Birth) (r : SessionRatchet Key)
    (calls : List (ConsentCall Birth)) : ConsentState D Key Identity Birth :=
  { s with
    level := if calls.any ConsentCall.isVoice then 2 else s.level
    ratchet := some
      ⟨r.send.advances K (calls.countP ConsentCall.isEncrypt),
        r.recv.advances K (calls.countP ConsentCall.isLongDecrypt)⟩ }

/-- The state right after the exchange. -/
def exchanged (K : Kdf Key) (identity : Identity) (own : LocalPrekeys D)
    (offer : PeerOffer Birth) : ConsentState D Key Identity Birth where
  level := 1
  identity := identity
  prekeys := none
  peerIdentity := some offer.identity
  peerBirth := some offer.birth
  ratchet := some (.new K (deriveSessionKey D K own offer.prekeys) offer.initiator)

/-- From the exchange on, the level is positive and the prekeys are gone. -/
theorem run_later {s : ConsentState D Key Identity Birth} {r : SessionRatchet Key}
    (level : 1 ≤ s.level) (spent : s.prekeys = none) (session : s.ratchet = some r)
    (calls : List (ConsentCall Birth)) :
    run K C s calls =
      if calls.any ConsentCall.isBundle then none else some (s.later K r calls) := by
  induction calls generalizing s r with
  | nil =>
    obtain ⟨_, _, _, _, _, _⟩ := s
    obtain rfl : _ = some r := session
    rfl
  | cons call calls ih =>
    rw [run, List.foldlM_cons]
    cases call with
    | prekeyBundle => simp [step, prekeyBundle, spent, ConsentCall.isBundle]
    | acceptConsent offer =>
      have refused : s.acceptConsent K offer = some (.error (.outOfOrder 0 1), s) :=
        if_pos (by omega)
      simp only [step, refused, Option.map_some]
      exact ih level spent session
    | acceptVoice =>
      have voice : s.acceptVoice = (.ok (), { s with level := 2 }) := if_neg (by omega)
      simp only [step, voice]
      refine (ih (s := { s with level := 2 }) (by simp) spent session).trans ?_
      simp only [later, ite_self]
      rfl
    | encrypt nonce plaintext =>
      have moved : (s.encrypt K C nonce plaintext).2 =
          { s with ratchet := some ⟨(r.send.advance K).2, r.recv⟩ } := by
        simp only [encrypt, session]
        rw [← RatchetChain.encrypt_snd r.send nonce plaintext]
        rfl
      have counted : (ConsentCall.encrypt nonce plaintext :: calls).countP ConsentCall.isEncrypt =
          calls.countP ConsentCall.isEncrypt + 1 := List.countP_cons_of_pos rfl
      simp only [step, moved]
      refine (ih (s := { s with ratchet := some ⟨(r.send.advance K).2, r.recv⟩ }) level spent
        rfl).trans ?_
      simp only [later, counted, RatchetChain.advances_succ]
      rfl
    | decrypt frame =>
      by_cases short : frame.length < 24
      · have kept : (s.decrypt K C frame).2 = s := by
          obtain ⟨_, _, _, _, _, _⟩ := s
          obtain rfl : _ = some r := session
          simp only [decrypt, SessionRatchet.decrypt, RatchetChain.decrypt_short _ short]
        have uncounted : (ConsentCall.decrypt frame :: calls).countP ConsentCall.isLongDecrypt =
            calls.countP ConsentCall.isLongDecrypt :=
          List.countP_cons_of_neg (by simpa [ConsentCall.isLongDecrypt] using short)
        simp only [step, kept]
        refine (ih level spent session).trans ?_
        simp only [later, uncounted]
        rfl
      · have moved : (s.decrypt K C frame).2 =
            { s with ratchet := some ⟨r.send, (r.recv.advance K).2⟩ } := by
          simp only [decrypt, session]
          rw [← RatchetChain.decrypt_long r.recv short]
          rfl
        have counted : (ConsentCall.decrypt frame :: calls).countP ConsentCall.isLongDecrypt =
            calls.countP ConsentCall.isLongDecrypt + 1 :=
          List.countP_cons_of_pos (by simpa [ConsentCall.isLongDecrypt] using short)
        simp only [step, moved]
        refine (ih (s := { s with ratchet := some ⟨r.send, (r.recv.advance K).2⟩ }) level spent
          rfl).trans ?_
        simp only [later, counted, RatchetChain.advances_succ]
        rfl

/-- Whatever is called, and in whatever order: nothing changes before the first exchange, whose
data and session stay; later exchanges are refused, and the `expect` of an exchange never fails.
The send chain has moved once for each encryption since, the receive chain once for each frame
with room for a nonce, authentic or not. The run ends at the first `prekey_bundle` after the
exchange, and only there. -/
theorem run_new (identity : Identity) (own : LocalPrekeys D) (calls : List (ConsentCall Birth)) :
    run K C (new identity own) calls =
      match ConsentCall.firstExchange calls with
      | none => some (new identity own)
      | some (offer, after) =>
        if after.any ConsentCall.isBundle then none
        else
          some ((exchanged K identity own offer).later K
            (.new K (deriveSessionKey D K own offer.prekeys) offer.initiator) after) := by
  induction calls with
  | nil => rfl
  | cons call calls ih =>
    cases call with
    | acceptConsent offer =>
      exact run_later (s := exchanged K identity own offer) (le_refl 1) rfl rfl calls
    | prekeyBundle => exact ih
    | acceptVoice => exact ih
    | encrypt nonce plaintext => exact ih
    | decrypt frame => exact ih

end ConsentState

end Zodia.Crypto
