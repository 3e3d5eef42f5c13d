import Zodia.App.Consent
import Zodia.Ops.Cbor

/-!
# Announces

Peers announce themselves to the swarm over and over, and the first announce of a peer in a
session is passed on to the application as `PeerDiscovered`. The listeners of all topics share
one set of the peers they have passed on, and nothing is ever taken out of it. The application
relies on announces to dial a peer that it seeks or has lost, and to list one that it has
forgotten.

## Main definitions

* `SignedAnnounce.toCbor`, `SignedAnnounce.fromCbor`, `SignedAnnounce.verify` — the blob on the
  wire.
* `GossipState.step` — the listeners, the handler of `PeerDiscovered`, and the rest of the
  application.
* `GossipState.Wanted` — the application has a use for an announce of the peer.
* `GossipState.Acts` — announces that it has a use for are passed on and acted on.
-/

namespace Zodia.App

open Lib Ops StargazerMap

/-! ## The blob -/

/-- The blob on the wire: the fingerprint, the key of the peer and its signature. -/
structure SignedAnnounce extends AnnounceBlob where
  pubkey : Bytes32
  sig : Bytes
  deriving DecidableEq

inductive AnnounceError where
  | decode (e : DecodeError)
  | badSignature
  | badPublicKey

namespace SignedAnnounce

/-- The fields that are signed, in the order they are written. -/
def payloadFields (blob : AnnounceBlob) (pubkey : Bytes32) : List (String × Value) :=
  [("geohash_prefix", text.toValue blob.geohashPrefix),
    ("solar_month", FieldCodec.byte.toValue blob.solarMonth),
    ("pubkey", byteArray32.toValue pubkey)]

/-- The bytes that are signed. -/
def payload (blob : AnnounceBlob) (pubkey : Bytes32) : Bytes :=
  (Value.record (payloadFields blob pubkey)).write

def toValue (a : SignedAnnounce) : Value :=
  .record (payloadFields a.toAnnounceBlob a.pubkey ++ [("sig", byteVec.toValue a.sig)])

def ofValue (v : Value) : Except DecodeError SignedAnnounce := do
  let fields ← variantFields "AnnounceBlob" v
  return ⟨⟨← getField text "geohash_prefix" fields, ← getField .byte "solar_month" fields⟩,
    ← getField byteArray32 "pubkey" fields, ← getField byteVec "sig" fields⟩

def toCbor (a : SignedAnnounce) : Bytes := a.toValue.write

def fromCbor (bytes : Bytes) : Except AnnounceError SignedAnnounce :=
  (fromReader ofValue bytes).mapError .decode

section Signature

variable {Secret VerifyingKey : Type}
  (S : SignatureScheme Secret VerifyingKey Bytes (Vector UInt8 64))

def sign (sk : Secret) (blob : AnnounceBlob) : SignedAnnounce :=
  ⟨blob, S.publicKey sk, (S.sign sk (payload blob (S.publicKey sk))).toList⟩

def verify (a : SignedAnnounce) : Except AnnounceError Unit :=
  match S.fromBytes a.pubkey with
  | none => .error .badPublicKey
  | some vk =>
    if h : a.sig.length = 64 then
      if S.verify vk (payload a.toAnnounceBlob a.pubkey)
          ⟨a.sig.toArray, List.size_toArray.trans h⟩ then .ok ()
      else .error .badSignature
    else .error .badSignature

/-- A signed announce verifies if what a key signs is accepted under it. -/
theorem verify_sign (correct : ∀ sk m, S.accepts (S.publicKey sk) m (S.sign sk m))
    (sk : Secret) (blob : AnnounceBlob) : (sign S sk blob).verify S = .ok () := by
  have accepted := correct sk (payload blob (S.publicKey sk))
  unfold SignatureScheme.accepts at accepted
  unfold verify sign
  split at accepted
  · cases accepted
  · next vk decoded =>
    simp [decoded, Vector.toArray_toList]
    exact accepted

end Signature

theorem ofValue_toValue (a : SignedAnnounce) : ofValue a.toValue = .ok a := by
  simp [ofValue, toValue, payloadFields, getField, getField?, FieldCodec.ofValue_toValue]

/-- What is published is read back by every listener. -/
theorem fromCbor_toCbor (a : SignedAnnounce) : fromCbor a.toCbor = .ok a := by
  have fields : ∀ f ∈ payloadFields a.toAnnounceBlob a.pubkey ++ [("sig", byteVec.toValue a.sig)],
      f.2.depth ≤ 2 := by
    have deeper : ∀ {α : Type} {d : ℕ} (c : FieldCodec α d) (a : α), d ≤ 2 →
        (c.toValue a).depth ≤ 2 := fun c a hd => (c.depth_toValue a).trans hd
    simp [payloadFields, deeper]
  have depth : a.toValue.depth ≤ recursionLimit := by
    have entries := Value.depthEntries_record (by decide) fields
    simp only [toValue, Value.record, Value.depth, recursionLimit]
    omega
  rw [fromCbor, toCbor, fromReader_write depth, ofValue_toValue]
  rfl

end SignedAnnounce

/-! ## The model -/

variable {F Channel : Type}

/-- The application, the peers whose announces were passed on, and the `PeerDiscovered` events in
flight. `heard` are the validly signed announces received since the network was started; the
program keeps no such record. -/
structure GossipState (F Channel : Type) where
  app : AppState F Channel
  seen : List PeerId
  discovered : List SignedAnnounce
  heard : List SignedAnnounce

inductive GossipEvent (F Channel : Type) where
  | app (e : AppEvent F Channel)
  /-- A listener receives a message on its topic. -/
  | gossip (bytes : Bytes)
  /-- The application handles the next `PeerDiscovered`. -/
  | peerDiscovered (approx : List String)

/-- Whether the handler of `PeerDiscovered` sends a `Reconnect`. -/
def AppState.shouldReconnect (st : AppState F Channel) (peerId : PeerId) : Bool :=
  match st.stargazers.stateOf peerId with
  | some .outgoingPending => true
  | some (.connected _) => (st.connectedChannels.find? peerId).isNone
  | _ => false

namespace GossipState

section Model

variable {Secret VerifyingKey : Type} (T : FloatText F) (solarMonth : F → UInt8)
  (S : SignatureScheme Secret VerifyingKey Bytes (Vector UInt8 64))

def fresh (relayPk : Bytes32) : GossipState F Channel := ⟨.fresh relayPk, [], [], []⟩

/-- The announce in a message, if there is a network to receive it and its signature is valid. -/
def received (s : GossipState F Channel) (bytes : Bytes) : Option SignedAnnounce :=
  match s.app.network, SignedAnnounce.fromCbor bytes with
  | true, .ok a =>
    match a.verify S with
    | .ok () => some a
    | .error _ => none
  | _, _ => none

def step (s : GossipState F Channel) : GossipEvent F Channel → GossipState F Channel
  | .app .networkStarted => ⟨s.app.step T solarMonth .networkStarted, [], s.discovered, []⟩
  | .app .restart => ⟨s.app.step T solarMonth .restart, [], [], []⟩
  | .app e => { s with app := s.app.step T solarMonth e }
  | .gossip bytes =>
    match received S s bytes with
    | none => s
    | some a =>
      if a.pubkey ∈ s.seen then { s with heard := a :: s.heard }
      else
        { s with
          seen := a.pubkey :: s.seen
          discovered := s.discovered ++ [a]
          heard := a :: s.heard }
  | .peerDiscovered approx =>
    match s.discovered with
    | [] => s
    | a :: rest =>
      { s with
        app := s.app.peerDiscovered a.pubkey a.toAnnounceBlob approx
        discovered := rest }

/-- The peer a handler sends a `Reconnect` for. -/
def dials (s : GossipState F Channel) : GossipEvent F Channel → Option PeerId
  | .peerDiscovered _ =>
    match s.discovered with
    | [] => none
    | a :: _ => if s.app.shouldReconnect a.pubkey then some a.pubkey else none
  | _ => none

/-- The peer is sought, or connected without a channel, or not known. -/
def Wanted (s : GossipState F Channel) (peerId : PeerId) : Prop :=
  s.app.shouldReconnect peerId ∨ s.app.stargazers.stateOf peerId = none

/-- An announce of a wanted peer is passed on, and the peer is dialled or listed. -/
def Acts (s : GossipState F Channel) : GossipEvent F Channel → Prop
  | .gossip bytes => ∀ a, received S s bytes = some a → s.Wanted a.pubkey →
    (step T solarMonth S s (.gossip bytes)).discovered = s.discovered ++ [a]
  | .peerDiscovered approx => ∀ a rest, s.discovered = a :: rest → s.Wanted a.pubkey →
    s.dials (.peerDiscovered approx) = some a.pubkey ∨
      (step T solarMonth S s (.peerDiscovered approx)).app.stargazers.stateOf a.pubkey =
        some .discovered
  | _ => True

/-- An announce of a wanted peer is the first one since the network was started. -/
def First (s : GossipState F Channel) : GossipEvent F Channel → Prop
  | .gossip bytes => ∀ a, received S s bytes = some a → s.Wanted a.pubkey →
    ∀ earlier ∈ s.heard, earlier.pubkey ≠ a.pubkey
  | _ => True

end Model

/-! ## Steps -/

section Received

variable {Secret VerifyingKey : Type}
  {S : SignatureScheme Secret VerifyingKey Bytes (Vector UInt8 64)} {s : GossipState F Channel}

/-- A published announce with a valid signature is received. -/
theorem received_toCbor (network : s.app.network = true) {a : SignedAnnounce}
    (valid : a.verify S = .ok ()) : received S s a.toCbor = some a := by
  simp only [received, network, SignedAnnounce.fromCbor_toCbor, valid]

end Received

variable {Secret VerifyingKey : Type} {T : FloatText F} {solarMonth : F → UInt8}
  {S : SignatureScheme Secret VerifyingKey Bytes (Vector UInt8 64)} {s : GossipState F Channel}

/-- The first announce of a peer is passed on. -/
theorem step_gossip_new {bytes : Bytes} {a : SignedAnnounce}
    (found : received S s bytes = some a) (new : a.pubkey ∉ s.seen) :
    step T solarMonth S s (.gossip bytes) =
      ⟨s.app, a.pubkey :: s.seen, s.discovered ++ [a], a :: s.heard⟩ := by
  simp only [step, found, new, if_false]

/-- Every further one is ignored. -/
theorem step_gossip_known {bytes : Bytes} {a : SignedAnnounce}
    (found : received S s bytes = some a) (known : a.pubkey ∈ s.seen) :
    step T solarMonth S s (.gossip bytes) = { s with heard := a :: s.heard } := by
  simp only [step, found, known, if_true]

/-- The peers that were passed on are the ones that were heard of. -/
def Tracks (s : GossipState F Channel) : Prop :=
  ∀ peerId, peerId ∈ s.seen ↔ ∃ a ∈ s.heard, a.pubkey = peerId

theorem Tracks.step (h : s.Tracks) (e : GossipEvent F Channel) :
    (step T solarMonth S s e).Tracks := by
  cases e with
  | app e =>
    cases e with
    | networkStarted => exact fun peerId => by simp [GossipState.step]
    | restart => exact fun peerId => by simp [GossipState.step]
    | _ => exact h
  | gossip bytes =>
    cases found : received S s bytes with
    | none => simpa only [GossipState.step, found] using h
    | some a =>
      by_cases known : a.pubkey ∈ s.seen
      · rw [step_gossip_known found known]
        intro peerId
        refine (h peerId).trans ⟨fun ⟨b, mem, key⟩ => ⟨b, List.mem_cons_of_mem a mem, key⟩, ?_⟩
        rintro ⟨b, mem, rfl⟩
        rcases List.mem_cons.1 mem with rfl | old
        · exact (h b.pubkey).1 known
        · exact ⟨b, old, rfl⟩
      · rw [step_gossip_new found known]
        intro peerId
        simp [h peerId, eq_comm]
  | peerDiscovered approx =>
    simp only [GossipState.step]
    split <;> exact h

/-- A wanted peer that is passed on is dialled or listed. -/
theorem acts_peerDiscovered (approx : List String) :
    s.Acts T solarMonth S (.peerDiscovered approx) := by
  intro a rest queue wanted
  rcases wanted with dial | unknown
  · exact .inl (by simp [dials, queue, dial])
  · refine .inr ?_
    have absent : s.app.stargazers.find? a.pubkey = none := Option.map_eq_none_iff.1 unknown
    have listed : s.app.peerDiscovered a.pubkey a.toAnnounceBlob approx =
        { s.app with
          stargazers := s.app.stargazers.upsert
            (.discovered a.pubkey a.toAnnounceBlob approx) } := by
      simp only [AppState.peerDiscovered, absent, Option.isSome_none, Bool.false_eq_true, if_false]
    simp only [GossipState.step, queue, listed, stateOf, Table.find?_upsert]
    simp [Stargazer.discovered]

/-- An announce of a wanted peer that was passed on before is lost. -/
theorem not_acts_of_seen {bytes : Bytes} {a : SignedAnnounce} (found : received S s bytes = some a)
    (wanted : s.Wanted a.pubkey) (known : a.pubkey ∈ s.seen) :
    ¬ s.Acts T solarMonth S (.gossip bytes) := by
  intro acts
  have passed := acts a found wanted
  rw [step_gossip_known found known] at passed
  simp at passed

theorem acts_iff (h : s.Tracks) (e : GossipEvent F Channel) :
    s.Acts T solarMonth S e ↔ s.First S e := by
  cases e with
  | app e => exact iff_of_true trivial trivial
  | peerDiscovered approx => exact iff_of_true (acts_peerDiscovered approx) trivial
  | gossip bytes =>
    refine forall₃_congr fun a found wanted => ?_
    have unheard : (∀ earlier ∈ s.heard, earlier.pubkey ≠ a.pubkey) ↔ a.pubkey ∉ s.seen := by
      rw [h a.pubkey]
      simp
    rw [unheard]
    by_cases known : a.pubkey ∈ s.seen
    · rw [step_gossip_known found known]
      exact iff_of_false (by simp) fun new => new known
    · rw [step_gossip_new found known]
      exact iff_of_true rfl known

end GossipState

/-- A `Reconnect` to a peer that the handler wants to reach starts an attempt, if the network is
up and the birth data are configured. -/
theorem AppState.reconnect_starts {st : AppState F Channel} {peerId : PeerId}
    (dial : st.shouldReconnect peerId = true) (network : st.network = true) {birth : BirthData F}
    (hbirth : st.birth = some birth) :
    ∃ task, task.peerId = peerId ∧ (st.reconnect peerId).tasks = st.tasks ++ [task] := by
  have kind : ∃ isNew, st.reconnectKind peerId = some isNew := by
    unfold AppState.shouldReconnect at dial
    unfold AppState.reconnectKind
    split at dial
    · next sought => exact ⟨true, by rw [sought]⟩
    · next birth connected =>
      rw [connected]
      have closed : (st.connectedChannels.find? peerId).isSome = false := by
        rw [Option.isNone_iff_eq_none.1 dial]
        rfl
      exact ⟨false, by simp [closed]⟩
    · cases dial
  obtain ⟨isNew, hkind⟩ := kind
  refine ⟨⟨peerId, ⟨birth, Vector.replicate 32 0, Vector.replicate 32 0, st.relayPk⟩, isNew⟩, rfl,
    ?_⟩
  simp only [AppState.reconnect, hkind, network, makeConsentBlob, hbirth, Option.map_some]

/-! ## Runs -/

/-- Every valid announce of a peer that the application wants to reach or to list is passed on
and acted on, exactly if each such announce is the first one of its peer since the network was
started. -/
theorem announces_acted_on_iff {Secret VerifyingKey : Type} (T : FloatText F)
    (solarMonth : F → UInt8) (S : SignatureScheme Secret VerifyingKey Bytes (Vector UInt8 64))
    (relayPk : Bytes32) (es : List (GossipEvent F Channel)) :
    Along (GossipState.step T solarMonth S) (GossipState.Acts T solarMonth S) (.fresh relayPk) es ↔
      Along (GossipState.step T solarMonth S) (GossipState.First S) (.fresh relayPk) es := by
  have start : (GossipState.fresh relayPk : GossipState F Channel).Tracks :=
    fun peerId => by simp [GossipState.fresh]
  refine Along.congr_of_invariant (fun s e h _ => ?_) (fun s e h => ?_) start
  · exact h.step e
  · exact GossipState.acts_iff h e

/-- A scheme in which every signature is accepted. -/
private def acceptingScheme : SignatureScheme Bytes32 Bytes32 Bytes (Vector UInt8 64) :=
  ⟨id, fun _ _ => Vector.replicate 64 0, some, fun _ _ _ => true⟩

/-- Peer 1 announces itself. -/
private def announceOf1 : SignedAnnounce :=
  .sign acceptingScheme (Vector.replicate 32 1) ⟨"u4p", 6⟩

/-- Peer 1 is announced and listed, the user proposes to it, and its next announce is ignored. -/
theorem next_announce_ignored :
    ¬ Along (GossipState.step decimalText (fun _ => 1) acceptingScheme)
      (GossipState.Acts decimalText (fun _ => 1) acceptingScheme)
      (.fresh (Vector.replicate 32 9) : GossipState ℕ Unit)
      [.app (.confirmBirth ⟨2448000, "u4pru"⟩), .app .networkStarted,
        .gossip announceOf1.toCbor, .peerDiscovered [],
        .app (.proposeConsent (Vector.replicate 32 1)), .gossip announceOf1.toCbor] := by
  rintro ⟨-, -, -, -, -, acts, -⟩
  have valid : announceOf1.verify acceptingScheme = .ok () := rfl
  rw [GossipState.step_gossip_new (GossipState.received_toCbor rfl valid) List.not_mem_nil] at acts
  refine GossipState.not_acts_of_seen (GossipState.received_toCbor ?_ valid) (.inl ?_) ?_ acts
  · rfl
  · rfl
  · exact List.mem_cons_self

end Zodia.App
