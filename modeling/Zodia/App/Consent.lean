import Zodia.App.PeersFile
import Zodia.Lib.Run

/-!
# Consent

The part of the application that decides with whom exact birth data is exchanged:
the handlers for the user's actions, for the network's events and for the messages the
application sends itself, the exchanges that run beside it, and the two files that
outlive it. A queued `Reconnect` is an event that may come at any time, since its
handler looks at the state again.

The hash map of the stargazers yields its entries in no fixed order, so the events
whose handlers iterate over it say in which order it does.

## Main definitions

* `AppState.step` — one event.
* `AppState.sends` — with whom a step runs `exchange_consent`, and what is sent.
* `Consents` — what the user has agreed to. The application does not keep this record.
-/

namespace Zodia.App

open Lib

/-- A spawned task that is to run `exchange_consent`. -/
structure ConsentTask (F : Type) where
  peerId : PeerId
  ourBlob : ConsentBlob F
  isNew : Bool

/-- The message a finished task sends to the application. -/
structure ConnectionComplete (F Channel : Type) where
  peerId : PeerId
  theirBlob : ConsentBlob F
  channel : Channel
  isNew : Bool

/-- The peers the user has proposed to, and those that were connected with the user's
consent and not removed since. -/
structure Consents where
  proposed : List PeerId
  trusted : List PeerId

/-- The user agreed to an exchange with the peer. -/
def Consents.Known (c : Consents) (peerId : PeerId) : Prop :=
  peerId ∈ c.proposed ∨ peerId ∈ c.trusted

instance (c : Consents) (peerId : PeerId) : Decidable (c.Known peerId) :=
  inferInstanceAs (Decidable (_ ∨ _))

def Consents.propose (c : Consents) (peerId : PeerId) : Consents :=
  { c with proposed := peerId :: c.proposed }

/-- An exchange the user agreed to is complete. -/
def Consents.connect (c : Consents) (peerId : PeerId) : Consents :=
  { c with trusted := peerId :: c.trusted }

def Consents.remove (c : Consents) (peerId : PeerId) : Consents :=
  { c with trusted := c.trusted.filter (· ≠ peerId) }

abbrev ChannelMap (Channel : Type) := Table fun c : PeerId × Channel => c.1

structure AppState (F Channel : Type) where
  stargazers : StargazerMap F Channel
  connectedChannels : ChannelMap Channel
  birth : Option (BirthData F)
  relayPk : Bytes32
  network : Bool
  tasks : List (ConsentTask F)
  completions : List (ConnectionComplete F Channel)
  peersTsv : String
  pendingTsv : String
  consents : Consents

inductive AppEvent (F Channel : Type) where
  | confirmBirth (birth : BirthData F)
  | networkStarted
  | reconnect (peerId : PeerId)
  | proposeConsent (peerId : PeerId)
  | removeStargazer (peerId : PeerId)
  /-- The user accepts the request that was shown as coming from `shown`. -/
  | acceptConsent (shown : PeerId) (order : List (Stargazer F Channel))
      (reply : Option (ConsentBlob F))
  | rejectConsent (order : List (Stargazer F Channel))
  | peerDiscovered (peerId : PeerId) (blob : AnnounceBlob) (approx : List String)
  | peerLeft (peerId : PeerId)
  | incomingChannel (peerId : PeerId) (channel : Channel)
  | peerChannelClosed (peerId : PeerId)
  /-- The task at place `i` runs its exchange. -/
  | exchange (i : ℕ) (channel : Channel) (reply : Option (ConsentBlob F))
  /-- The task at place `i` finds no connection. -/
  | connectFailed (i : ℕ)
  /-- The completion at place `i` is handled. -/
  | connectionComplete (i : ℕ)
  | restart

variable {F Channel : Type}

/-! ## The stargazer map -/

namespace StargazerMap

/-- `get(peer_id).map(|s| &s.state)`. -/
def stateOf (m : StargazerMap F Channel) (peerId : PeerId) : Option (StargazerState F Channel) :=
  (m.find? peerId).map Stargazer.state

/-- `get_mut` and a new state. -/
def setState (m : StargazerMap F Channel) (peerId : PeerId) (state : StargazerState F Channel) :
    StargazerMap F Channel :=
  m.modify peerId (fun s => { s with state := state }) fun _ => rfl

/-- `get_mut` and the new state of `fresh`, or else `insert` of `fresh`. -/
def setStateOrInsert (m : StargazerMap F Channel) (fresh : Stargazer F Channel) :
    StargazerMap F Channel :=
  if (m.find? fresh.peerId).isSome then m.setState fresh.peerId fresh.state else m.upsert fresh

theorem mem_setState {m : StargazerMap F Channel} {peerId : PeerId}
    {state : StargazerState F Channel} {x : Stargazer F Channel}
    (h : x ∈ m.setState peerId state) : x ∈ m ∨ x.peerId = peerId ∧ x.state = state := by
  rcases Table.mem_modify.1 h with ⟨old, -⟩ | ⟨s, -, hs, rfl⟩
  · exact .inl old
  · exact .inr ⟨hs, rfl⟩

theorem mem_setStateOrInsert {m : StargazerMap F Channel} {fresh x : Stargazer F Channel}
    (h : x ∈ m.setStateOrInsert fresh) :
    x ∈ m ∨ x.peerId = fresh.peerId ∧ x.state = fresh.state := by
  unfold setStateOrInsert at h
  split_ifs at h
  · exact mem_setState h
  · rcases Table.mem_upsert.1 h with ⟨old, -⟩ | rfl
    · exact .inl old
    · exact .inr ⟨rfl, rfl⟩

/-- The first pending request in the order the map is iterated. -/
def firstIncoming (order : List (Stargazer F Channel)) : Option (PeerId × Channel) :=
  order.findSome? fun s => s.incoming.map fun channel => (s.peerId, channel)

end StargazerMap

open StargazerMap

/-- The consent bar: the peer whose request is shown, and how many more there are. -/
def consentBar (order : List (Stargazer F Channel)) : Option (PeerId × ℕ) :=
  (firstIncoming order).map fun first => (first.1, order.countP (·.incoming.isSome) - 1)

/-- A connected peer that no announce has been seen of. -/
def Stargazer.connected (solarMonth : F → UInt8) (peerId : PeerId) (birth : ConsentBlob F) :
    Stargazer F Channel :=
  ⟨peerId, solarMonth birth.birth.jdn, String.ofList (birth.birth.geohash.toList.take 3), [],
    .connected birth⟩

/-- The connected peers of `peers.tsv`, and the peers of `pending.tsv` that are not among
them. -/
def loadStargazers (T : FloatText F) (solarMonth : F → UInt8) (peersTsv pendingTsv : String) :
    StargazerMap F Channel :=
  let connected := (peerEntries T peersTsv).foldl
    (fun m entry => m.upsert (Stargazer.connected solarMonth entry.1 entry.2)) Table.empty
  (loadPending pendingTsv).foldl (fun m peerId => m.insertOrIgnore (.outgoingPending peerId))
    connected

/-! ## The handlers -/

namespace AppState

variable (T : FloatText F) (solarMonth : F → UInt8) (st : AppState F Channel)

def makeConsentBlob : Option (ConsentBlob F) :=
  st.birth.map fun birth =>
    ⟨birth, Vector.replicate 32 0, Vector.replicate 32 0, st.relayPk⟩

/-- Which kind of connection attempt to make, if any. -/
def reconnectKind (peerId : PeerId) : Option Bool :=
  match st.stargazers.stateOf peerId with
  | some (.connected _) =>
    if (st.connectedChannels.find? peerId).isSome then none else some false
  | some .outgoingPending => some true
  | _ => none

def reconnect (peerId : PeerId) : AppState F Channel :=
  match st.reconnectKind peerId, st.network, st.makeConsentBlob with
  | some isNew, true, some ourBlob => { st with tasks := st.tasks ++ [⟨peerId, ourBlob, isNew⟩] }
  | _, _, _ => st

def proposeConsent (peerId : PeerId) : AppState F Channel :=
  match st.stargazers.stateOf peerId with
  | some (.connected _) | some .outgoingPending =>
    { st with consents := st.consents.propose peerId }
  | _ =>
    let stargazers := st.stargazers.setStateOrInsert (.outgoingPending peerId)
    { st with
      stargazers := stargazers
      pendingTsv := savePending stargazers
      consents := st.consents.propose peerId }

def removeStargazer (peerId : PeerId) : AppState F Channel :=
  let stargazers := st.stargazers.erase peerId
  let consents := st.consents.remove peerId
  match st.stargazers.stateOf peerId with
  | some .outgoingPending =>
    { st with
      stargazers := stargazers
      pendingTsv := savePending stargazers
      consents := consents }
  | some (.connected _) =>
    { st with
      stargazers := stargazers
      connectedChannels := st.connectedChannels.erase peerId
      peersTsv := saveStargazers T stargazers
      consents := consents }
  | _ => { st with stargazers := stargazers, consents := consents }

/-- The record after an exchange that `acceptConsent` ran: the user agreed to one with the
peer whose request was shown. -/
def accepted (shown peerId : PeerId) : Consents :=
  if peerId = shown then st.consents.connect peerId else st.consents

def acceptConsent (shown : PeerId) (order : List (Stargazer F Channel))
    (reply : Option (ConsentBlob F)) : AppState F Channel :=
  match firstIncoming order with
  | none => st
  | some (peerId, channel) =>
    match st.makeConsentBlob with
    | none => { st with stargazers := st.stargazers.setState peerId .discovered }
    | some _ =>
      let channels := st.connectedChannels.upsert (peerId, channel)
      match reply with
      | some theirBlob =>
        let stargazers := st.stargazers.setState peerId (.connected theirBlob)
        { st with
          stargazers := stargazers
          connectedChannels := channels
          peersTsv := saveStargazers T stargazers
          consents := st.accepted shown peerId }
      | none =>
        { st with
          stargazers := st.stargazers.setState peerId .discovered
          connectedChannels := channels }

def rejectConsent (order : List (Stargazer F Channel)) : AppState F Channel :=
  match firstIncoming order with
  | none => st
  | some (peerId, _) => { st with stargazers := st.stargazers.setState peerId .discovered }

def peerDiscovered (peerId : PeerId) (blob : AnnounceBlob) (approx : List String) :
    AppState F Channel :=
  if (st.stargazers.find? peerId).isSome then
    { st with stargazers := st.stargazers.modify peerId (·.announced blob approx) fun _ => rfl }
  else { st with stargazers := st.stargazers.upsert (.discovered peerId blob approx) }

def peerLeft (peerId : PeerId) : AppState F Channel :=
  match st.stargazers.stateOf peerId with
  | some .discovered | none => { st with stargazers := st.stargazers.erase peerId }
  | some (.incomingPending _) =>
    { st with stargazers := st.stargazers.setState peerId .discovered }
  | _ => st

/-- Whether an incoming channel is accepted without asking, and if so, for the first time. -/
def autoKind (peerId : PeerId) : Option Bool :=
  match st.stargazers.stateOf peerId with
  | some .outgoingPending => some true
  | some (.connected _) => some false
  | _ => none

def incomingChannel (peerId : PeerId) (channel : Channel) : AppState F Channel :=
  match st.autoKind peerId with
  | some isNew =>
    match st.makeConsentBlob with
    | some ourBlob => { st with tasks := st.tasks ++ [⟨peerId, ourBlob, isNew⟩] }
    | none => st
  | none =>
    { st with
      stargazers := st.stargazers.setStateOrInsert
        ⟨peerId, 0, "", [], .incomingPending channel⟩ }

/-- The task at place `i` runs `exchange_consent` and reports a reply. -/
def exchange (i : ℕ) (channel : Channel) (reply : Option (ConsentBlob F)) : AppState F Channel :=
  match st.tasks[i]?, reply with
  | some task, some theirBlob =>
    { st with
      tasks := st.tasks.eraseIdx i
      completions := st.completions ++ [⟨task.peerId, theirBlob, channel, task.isNew⟩] }
  | _, _ => { st with tasks := st.tasks.eraseIdx i }

/-- The record after an exchange that a task ran. -/
def completed (peerId : PeerId) : Consents :=
  if st.consents.Known peerId then st.consents.connect peerId else st.consents

/-- The stargazers after a finished exchange. -/
def connect (msg : ConnectionComplete F Channel) : StargazerMap F Channel :=
  st.stargazers.setStateOrInsert (Stargazer.connected solarMonth msg.peerId msg.theirBlob)

def connectionComplete (i : ℕ) : AppState F Channel :=
  match st.completions[i]? with
  | none => st
  | some msg =>
    let stargazers := st.connect solarMonth msg
    { st with
      stargazers := stargazers
      connectedChannels := st.connectedChannels.upsert (msg.peerId, msg.channel)
      completions := st.completions.eraseIdx i
      peersTsv := if msg.isNew then saveStargazers T stargazers else st.peersTsv
      pendingTsv := if msg.isNew then savePending stargazers else st.pendingTsv
      consents := st.completed msg.peerId }

/-- The process ends and starts again: the files and the configuration stay. -/
def restart : AppState F Channel :=
  { st with
    stargazers := loadStargazers T solarMonth st.peersTsv st.pendingTsv
    connectedChannels := Table.empty
    network := false
    tasks := []
    completions := [] }

def step : AppEvent F Channel → AppState F Channel
  | .confirmBirth birth => { st with birth := some birth }
  | .networkStarted => { st with network := true }
  | .reconnect peerId => st.reconnect peerId
  | .proposeConsent peerId => st.proposeConsent peerId
  | .removeStargazer peerId => st.removeStargazer T peerId
  | .acceptConsent shown order reply => st.acceptConsent T shown order reply
  | .rejectConsent order => st.rejectConsent order
  | .peerDiscovered peerId blob approx => st.peerDiscovered peerId blob approx
  | .peerLeft peerId => st.peerLeft peerId
  | .incomingChannel peerId channel => st.incomingChannel peerId channel
  | .peerChannelClosed peerId =>
    { st with connectedChannels := st.connectedChannels.erase peerId }
  | .exchange i channel reply => st.exchange i channel reply
  | .connectFailed i => { st with tasks := st.tasks.eraseIdx i }
  | .connectionComplete i => st.connectionComplete T solarMonth i
  | .restart => st.restart T solarMonth

/-- The peer a step runs `exchange_consent` with, and the blob it sends. -/
def sends : AppEvent F Channel → Option (PeerId × ConsentBlob F)
  | .acceptConsent _ order _ => do
    let (peerId, _) ← firstIncoming order
    let ourBlob ← st.makeConsentBlob
    return (peerId, ourBlob)
  | .exchange i _ _ => st.tasks[i]?.map fun task => (task.peerId, task.ourBlob)
  | _ => none

/-- The order an event gives is one of the stargazers in the map. -/
def Enabled : AppEvent F Channel → Prop
  | .acceptConsent _ order _ | .rejectConsent order => order.Perm st.stargazers.rows
  | _ => True

end AppState

/-- A fresh installation. -/
def AppState.fresh (relayPk : Bytes32) : AppState F Channel :=
  ⟨Table.empty, Table.empty, none, relayPk, false, [], [], "", "", ⟨[], []⟩⟩

end Zodia.App
