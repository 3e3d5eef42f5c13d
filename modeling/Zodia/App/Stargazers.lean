import Zodia.Lib.Primitives
import Zodia.Lib.Table

/-!
# Stargazers

The peer list of the application: what is known of a peer, from the first gossip
sighting to the completed consent exchange. `F` stands for 64-bit floats and
`Channel` for direct channels.
-/

namespace Zodia.App

open Lib

/-- A peer's ed25519 public key. -/
abbrev PeerId := Bytes32

/-- A birth moment: Julian day number and geohash. -/
structure BirthData (F : Type) where
  jdn : F
  geohash : String
  deriving DecidableEq

/-- Exact birth data and key material, sent after mutual consent. -/
structure ConsentBlob (F : Type) where
  birth : BirthData F
  prekey : Bytes32
  ephemeral : Bytes32
  relayPk : Bytes32
  deriving DecidableEq

/-- The coarse fingerprint a peer announces to the swarm. -/
structure AnnounceBlob where
  geohashPrefix : String
  solarMonth : UInt8
  deriving DecidableEq

inductive StargazerState (F Channel : Type) where
  | discovered
  | outgoingPending
  | incomingPending (channel : Channel)
  | connected (birth : ConsentBlob F)
  deriving DecidableEq

structure Stargazer (F Channel : Type) where
  peerId : PeerId
  solarMonth : UInt8
  geohashPrefix : String
  approximateAspects : List String
  state : StargazerState F Channel
  deriving DecidableEq

/-- The stargazers in the order the hash map yields them, one for each peer. -/
abbrev StargazerMap (F Channel : Type) := Table fun s : Stargazer F Channel => s.peerId

variable {F Channel : Type}

/-- The blob of a peer whose exchange is complete. -/
def Stargazer.connectedBlob (s : Stargazer F Channel) : Option (ConsentBlob F) :=
  match s.state with
  | .connected birth => some birth
  | _ => none

/-- Whether the user seeks the peer. -/
def Stargazer.seeking (s : Stargazer F Channel) : Bool :=
  match s.state with
  | .outgoingPending => true
  | _ => false

/-- The channel of a peer whose request waits for the user. -/
def Stargazer.incoming (s : Stargazer F Channel) : Option Channel :=
  match s.state with
  | .incomingPending channel => some channel
  | _ => none

/-- A freshly announced peer. -/
def Stargazer.discovered (peerId : PeerId) (blob : AnnounceBlob) (approx : List String) :
    Stargazer F Channel :=
  ⟨peerId, blob.solarMonth, blob.geohashPrefix, approx, .discovered⟩

/-- A known peer with the data of its announce, in whatever state it is. -/
def Stargazer.announced (s : Stargazer F Channel) (blob : AnnounceBlob) (approx : List String) :
    Stargazer F Channel :=
  { s with
    solarMonth := blob.solarMonth
    geohashPrefix := blob.geohashPrefix
    approximateAspects := approx }

/-- A peer loaded from `pending.tsv` before its announce has arrived. -/
def Stargazer.outgoingPending (peerId : PeerId) : Stargazer F Channel :=
  ⟨peerId, 0, "", [], .outgoingPending⟩

end Zodia.App
