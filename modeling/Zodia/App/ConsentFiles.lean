import Zodia.App.ConsentGating

/-!
# Starting from a clean file

The third way to break the gating of consent, a `peers.tsv` with a planted line, needs a
geohash with a newline in it. In every run in which the received blobs have none, the file
names only peers that are connected.

## Main definitions

* `AppState.FileInv` — the file names only connected peers.

## Main results

* `restart_clean_of_oneLine` — without newlines in geohashes a restart is always clean.
-/

namespace Zodia.App

open Lib StargazerMap

variable {F Channel : Type}

/-! ## States after an update of the map -/

namespace StargazerMap

variable (m : StargazerMap F Channel)

theorem stateOf_setState (peerId : PeerId) (state : StargazerState F Channel) (other : PeerId) :
    (m.setState peerId state).stateOf other =
      if peerId = other then (m.stateOf other).map fun _ => state else m.stateOf other := by
  rw [stateOf, setState, Table.find?_modify]
  split_ifs
  · rw [Option.map_map, stateOf, Option.map_map]
    rfl
  · rfl

theorem stateOf_setStateOrInsert (fresh : Stargazer F Channel) (other : PeerId) :
    (m.setStateOrInsert fresh).stateOf other =
      if fresh.peerId = other then some fresh.state else m.stateOf other := by
  unfold setStateOrInsert
  split_ifs with known same same
  · subst same
    obtain ⟨s, found⟩ := Option.isSome_iff_exists.1 known
    rw [stateOf_setState, if_pos rfl, stateOf, found]
    rfl
  · rw [stateOf_setState, if_neg same]
  · rw [stateOf, Table.find?_upsert, if_pos same]
    rfl
  · rw [stateOf, Table.find?_upsert, if_neg same, stateOf]

theorem stateOf_erase (peerId other : PeerId) :
    StargazerMap.stateOf (m.erase peerId) other =
      if peerId = other then none else m.stateOf other := by
  rw [stateOf, Table.find?_erase]
  split_ifs <;> rfl

/-- An announce leaves every state as it is. -/
theorem stateOf_announced (peerId : PeerId) (blob : AnnounceBlob) (approx : List String)
    (other : PeerId) :
    StargazerMap.stateOf (m.modify peerId (·.announced blob approx) fun _ => rfl) other =
      m.stateOf other := by
  refine (congrArg (Option.map Stargazer.state) (Table.find?_modify ..)).trans ?_
  split_ifs
  · rw [Option.map_map]
    rfl
  · rfl

variable {m}

theorem connectedBlob?_eq_some_stateOf {peerId : PeerId} {blob : ConsentBlob F} :
    connectedBlob? m peerId = some blob ↔ m.stateOf peerId = some (.connected blob) := by
  unfold connectedBlob? stateOf
  cases m.find? peerId with
  | none => simp
  | some s => cases state : s.state <;> simp [Stargazer.connectedBlob, state]

/-- The first pending request is one of the map. -/
theorem stateOf_firstIncoming {order : List (Stargazer F Channel)} (perm : order.Perm m.rows)
    {peerId : PeerId} {channel : Channel} (first : firstIncoming order = some (peerId, channel)) :
    m.stateOf peerId = some (.incomingPending channel) := by
  obtain ⟨s, hs, found⟩ := List.exists_of_findSome?_eq_some first
  obtain ⟨c, hc, same⟩ := Option.map_eq_some_iff.1 found
  obtain ⟨rfl, rfl⟩ := Prod.mk.inj same
  have present : m.find? s.peerId = some s := Table.find?_eq_some.2 ⟨perm.subset hs, rfl⟩
  rw [stateOf, present, Option.map_some]
  unfold Stargazer.incoming at hc
  cases state : s.state <;> simp_all

end StargazerMap

/-! ## The invariant -/

/-- The reply of a peer has its geohash on one line. -/
def AppEvent.OneLine : AppEvent F Channel → Prop
  | .acceptConsent _ _ reply => ∀ blob ∈ reply, '\n' ∉ blob.birth.geohash.toList
  | .exchange _ _ reply => ∀ blob ∈ reply, '\n' ∉ blob.birth.geohash.toList
  | _ => True

/-- The handler of the event may connect a peer, close or open its channel, report an exchange
or write `peers.tsv`. -/
def AppEvent.touchesLinks : AppEvent F Channel → Bool
  | .removeStargazer _ | .acceptConsent .. | .peerChannelClosed _ | .exchange ..
  | .connectionComplete _ | .restart => true
  | _ => false

namespace AppState

/-- The blobs of connected peers, present and to come, are on one line, and the file names
only connected peers. -/
structure FileInv (T : FloatText F) (st : AppState F Channel) : Prop where
  rows : OnOneLine st.stargazers
  completions : ∀ msg ∈ st.completions, '\n' ∉ msg.theirBlob.birth.geohash.toList
  peersFile : ∀ peerId, (loadConnectedStargazers T st.peersTsv peerId).isSome →
    (connectedBlob? st.stargazers peerId).isSome

variable {T : FloatText F} {solarMonth : F → UInt8} {st : AppState F Channel}

/-- The map has the same connected peers as before. -/
def SameConnected (m m' : StargazerMap F Channel) : Prop :=
  ∀ peerId blob, m'.stateOf peerId = some (.connected blob) ↔
    m.stateOf peerId = some (.connected blob)

theorem onOneLine_iff {m : StargazerMap F Channel} :
    OnOneLine m ↔ ∀ peerId blob, m.stateOf peerId = some (.connected blob) →
      '\n' ∉ blob.birth.geohash.toList := by
  constructor
  · intro h peerId blob state
    obtain ⟨s, hs, -, found⟩ :=
      connectedBlob?_eq_some.1 (connectedBlob?_eq_some_stateOf.2 state)
    exact h s hs blob found
  · intro h s hs blob found
    exact h s.peerId blob
      (connectedBlob?_eq_some_stateOf.1 (connectedBlob?_eq_some.2 ⟨s, hs, rfl, found⟩))

/-- The connected peers, their channels, the messages of the exchanges and `peers.tsv` are the
same as before. -/
structure KeepsLinks (st st' : AppState F Channel) : Prop where
  connected : SameConnected st.stargazers st'.stargazers
  channels : st'.connectedChannels = st.connectedChannels
  completions : st'.completions = st.completions
  peersFile : st'.peersTsv = st.peersTsv

theorem FileInv.of_keepsLinks (h : st.FileInv T) {st' : AppState F Channel}
    (keeps : KeepsLinks st st') : st'.FileInv T where
  rows := onOneLine_iff.2 fun peerId blob state =>
    onOneLine_iff.1 h.rows peerId blob ((keeps.connected peerId blob).1 state)
  completions := keeps.completions ▸ h.completions
  peersFile peerId loaded := by
    rw [keeps.peersFile] at loaded
    obtain ⟨blob, found⟩ := Option.isSome_iff_exists.1 (h.peersFile peerId loaded)
    have kept := (keeps.connected peerId blob).2 (connectedBlob?_eq_some_stateOf.1 found)
    rw [connectedBlob?_eq_some_stateOf.2 kept]
    rfl

theorem FileInv.withMap (h : st.FileInv T) {m : StargazerMap F Channel}
    (same : SameConnected st.stargazers m) :
    ({ st with stargazers := m } : AppState F Channel).FileInv T :=
  h.of_keepsLinks ⟨same, rfl, rfl, rfl⟩

/-- The file is written anew. -/
theorem FileInv.saved (hT : T.RoundTrips) (h : st.FileInv T) {m : StargazerMap F Channel}
    (rows : OnOneLine m) :
    ({ st with stargazers := m, peersTsv := saveStargazers T m } : AppState F Channel).FileInv
      T where
  rows := rows
  completions := h.completions
  peersFile peerId loaded := by
    rw [loadConnectedStargazers_save hT rows] at loaded
    simpa using loaded

/-- A state other than `connected` for a peer that is not connected. -/
theorem sameConnected_setStateOrInsert {m : StargazerMap F Channel} (fresh : Stargazer F Channel)
    (old : ∀ blob, m.stateOf fresh.peerId ≠ some (.connected blob))
    (new : ∀ blob, fresh.state ≠ .connected blob) :
    SameConnected m (m.setStateOrInsert fresh) := by
  intro peerId blob
  rw [stateOf_setStateOrInsert]
  split_ifs with same
  · subst same
    simp [old blob, new blob]
  · rfl

theorem sameConnected_setState {m : StargazerMap F Channel} (peerId : PeerId)
    (state : StargazerState F Channel) (old : ∀ blob, m.stateOf peerId ≠ some (.connected blob))
    (new : ∀ blob, state ≠ .connected blob) : SameConnected m (m.setState peerId state) := by
  intro other blob
  rw [stateOf_setState]
  split_ifs with same
  · subst same
    simp [old blob, new blob]
  · rfl

theorem sameConnected_erase {m : StargazerMap F Channel} (peerId : PeerId)
    (old : ∀ blob, m.stateOf peerId ≠ some (.connected blob)) :
    SameConnected m (m.erase peerId) := by
  intro other blob
  rw [stateOf_erase]
  split_ifs with same
  · subst same
    simp [old blob]
  · rfl

/-! ### Handlers that connect nobody -/

theorem sameConnected_proposeConsent (peerId : PeerId) :
    SameConnected st.stargazers (st.proposeConsent peerId).stargazers := by
  unfold AppState.proposeConsent
  split
  · exact fun _ _ => Iff.rfl
  · exact fun _ _ => Iff.rfl
  · next notConnected notSought =>
    exact sameConnected_setStateOrInsert (.outgoingPending peerId) notConnected
      fun blob none => nomatch none

theorem sameConnected_rejectConsent {order : List (Stargazer F Channel)}
    (perm : order.Perm st.stargazers.rows) :
    SameConnected st.stargazers (st.rejectConsent order).stargazers := by
  unfold AppState.rejectConsent
  split
  · exact fun _ _ => Iff.rfl
  · next peerId channel first =>
    have state := stateOf_firstIncoming perm first
    exact sameConnected_setState peerId .discovered (fun blob => by simp [state])
      fun blob none => nomatch none

theorem sameConnected_peerDiscovered (peerId : PeerId) (blob : AnnounceBlob)
    (approx : List String) :
    SameConnected st.stargazers (st.peerDiscovered peerId blob approx).stargazers := by
  unfold AppState.peerDiscovered
  split_ifs with known
  · intro other birth
    rw [stateOf_announced]
  · intro other birth
    rw [stateOf, Table.find?_upsert]
    split_ifs with same
    · have absent : st.stargazers.find? other = none :=
        same ▸ Option.not_isSome_iff_eq_none.1 known
      simp [stateOf, absent, Stargazer.discovered]
    · rfl

theorem sameConnected_peerLeft (peerId : PeerId) :
    SameConnected st.stargazers (st.peerLeft peerId).stargazers := by
  unfold AppState.peerLeft
  split
  · next state => exact sameConnected_erase peerId fun blob => by simp [state]
  · next state => exact sameConnected_erase peerId fun blob => by simp [state]
  · next channel state =>
    exact sameConnected_setState peerId .discovered (fun blob => by simp [state])
      fun blob none => nomatch none
  · exact fun _ _ => Iff.rfl

theorem sameConnected_incomingChannel (peerId : PeerId) (channel : Channel) :
    SameConnected st.stargazers (st.incomingChannel peerId channel).stargazers := by
  unfold AppState.incomingChannel
  split
  · split <;> exact fun _ _ => Iff.rfl
  · next asks =>
    refine sameConnected_setStateOrInsert _ (fun blob state => ?_) fun blob none => nomatch none
    simp [autoKind, state] at asks

theorem keepsLinks_reconnect (peerId : PeerId) : KeepsLinks st (st.reconnect peerId) := by
  unfold AppState.reconnect
  split <;> exact ⟨fun _ _ => Iff.rfl, rfl, rfl, rfl⟩

theorem keepsLinks_proposeConsent (peerId : PeerId) :
    KeepsLinks st (st.proposeConsent peerId) := by
  refine ⟨sameConnected_proposeConsent peerId, ?_, ?_, ?_⟩ <;> unfold AppState.proposeConsent <;>
    split <;> rfl

theorem keepsLinks_rejectConsent {order : List (Stargazer F Channel)}
    (perm : order.Perm st.stargazers.rows) : KeepsLinks st (st.rejectConsent order) := by
  refine ⟨sameConnected_rejectConsent perm, ?_, ?_, ?_⟩ <;> unfold AppState.rejectConsent <;>
    split <;> rfl

theorem keepsLinks_peerDiscovered (peerId : PeerId) (blob : AnnounceBlob)
    (approx : List String) : KeepsLinks st (st.peerDiscovered peerId blob approx) := by
  refine ⟨sameConnected_peerDiscovered peerId blob approx, ?_, ?_, ?_⟩ <;>
    unfold AppState.peerDiscovered <;> split_ifs <;> rfl

theorem keepsLinks_peerLeft (peerId : PeerId) : KeepsLinks st (st.peerLeft peerId) := by
  refine ⟨sameConnected_peerLeft peerId, ?_, ?_, ?_⟩ <;> unfold AppState.peerLeft <;>
    split <;> rfl

theorem keepsLinks_incomingChannel (peerId : PeerId) (channel : Channel) :
    KeepsLinks st (st.incomingChannel peerId channel) := by
  refine ⟨sameConnected_incomingChannel peerId channel, ?_, ?_, ?_⟩ <;>
    unfold AppState.incomingChannel <;> split
  · split <;> rfl
  · rfl
  · split <;> rfl
  · rfl
  · split <;> rfl
  · rfl

theorem keepsLinks_step {solarMonth : F → UInt8} {e : AppEvent F Channel}
    (enabled : st.Enabled e) (other : e.touchesLinks = false) :
    KeepsLinks st (st.step T solarMonth e) := by
  cases e with
  | confirmBirth birth => exact ⟨fun _ _ => Iff.rfl, rfl, rfl, rfl⟩
  | networkStarted => exact ⟨fun _ _ => Iff.rfl, rfl, rfl, rfl⟩
  | reconnect peerId => exact keepsLinks_reconnect peerId
  | proposeConsent peerId => exact keepsLinks_proposeConsent peerId
  | rejectConsent order => exact keepsLinks_rejectConsent enabled
  | peerDiscovered peerId blob approx => exact keepsLinks_peerDiscovered peerId blob approx
  | peerLeft peerId => exact keepsLinks_peerLeft peerId
  | incomingChannel peerId channel => exact keepsLinks_incomingChannel peerId channel
  | connectFailed i => exact ⟨fun _ _ => Iff.rfl, rfl, rfl, rfl⟩
  | _ => cases other

/-! ### Handlers that connect or disconnect a peer -/

theorem stargazers_removeStargazer (peerId : PeerId) :
    (st.removeStargazer T peerId).stargazers = st.stargazers.erase peerId := by
  unfold AppState.removeStargazer
  split <;> rfl

/-- A task touches neither of the two maps. -/
theorem exchange_maps (i : ℕ) (channel : Channel) (reply : Option (ConsentBlob F)) :
    (st.exchange i channel reply).stargazers = st.stargazers ∧
      (st.exchange i channel reply).connectedChannels = st.connectedChannels := by
  unfold AppState.exchange
  split <;> exact ⟨rfl, rfl⟩

section AcceptConsent

variable {shown peerId : PeerId} {channel : Channel} {order : List (Stargazer F Channel)}

theorem acceptConsent_of_none {reply : Option (ConsentBlob F)}
    (first : firstIncoming order = none) : st.acceptConsent T shown order reply = st := by
  simp only [AppState.acceptConsent, first]

theorem acceptConsent_of_noBirth {reply : Option (ConsentBlob F)}
    (first : firstIncoming order = some (peerId, channel)) (noBirth : st.birth = none) :
    st.acceptConsent T shown order reply =
      { st with stargazers := st.stargazers.setState peerId .discovered } := by
  simp only [AppState.acceptConsent, first, makeConsentBlob, noBirth, Option.map_none]

/-- The exchange fails, and the channel is inserted all the same. -/
theorem acceptConsent_failed {birth : BirthData F}
    (first : firstIncoming order = some (peerId, channel)) (hbirth : st.birth = some birth) :
    st.acceptConsent T shown order none =
      { st with
        stargazers := st.stargazers.setState peerId .discovered
        connectedChannels := st.connectedChannels.upsert (peerId, channel) } := by
  simp only [AppState.acceptConsent, first, makeConsentBlob, hbirth, Option.map_some]

theorem acceptConsent_replied {birth : BirthData F} (theirBlob : ConsentBlob F)
    (first : firstIncoming order = some (peerId, channel)) (hbirth : st.birth = some birth) :
    st.acceptConsent T shown order (some theirBlob) =
      { st with
        stargazers := st.stargazers.setState peerId (.connected theirBlob)
        connectedChannels := st.connectedChannels.upsert (peerId, channel)
        peersTsv := saveStargazers T (st.stargazers.setState peerId (.connected theirBlob))
        consents := st.accepted shown peerId } := by
  simp only [AppState.acceptConsent, first, makeConsentBlob, hbirth, Option.map_some]

/-- The new state of a peer whose request was pending. -/
theorem stateOf_setState_incoming (perm : order.Perm st.stargazers.rows)
    (first : firstIncoming order = some (peerId, channel)) (state : StargazerState F Channel)
    (other : PeerId) : (st.stargazers.setState peerId state).stateOf other =
      if peerId = other then some state else st.stargazers.stateOf other := by
  rw [stateOf_setState]
  split_ifs with same
  · rw [← same, stateOf_firstIncoming perm first, Option.map_some]
  · rfl

end AcceptConsent

/-! ### The handlers -/

/-- After the removal of a connected peer the file is written without it. -/
theorem FileInv.removeStargazer (hT : T.RoundTrips) (h : st.FileInv T) (peerId : PeerId) :
    (st.removeStargazer T peerId).FileInv T := by
  unfold AppState.removeStargazer
  split
  · next state =>
    have erased := h.withMap (sameConnected_erase peerId fun blob => by simp [state])
    exact ⟨erased.rows, erased.completions, erased.peersFile⟩
  · have left : OnOneLine (st.stargazers.erase peerId) := fun s hs blob found =>
      h.rows s (Table.mem_erase.1 hs).1 blob found
    have saved := h.saved hT left
    exact ⟨saved.rows, saved.completions, saved.peersFile⟩
  · next notSought notConnected =>
    have erased := h.withMap (sameConnected_erase peerId notConnected)
    exact ⟨erased.rows, erased.completions, erased.peersFile⟩

/-- A map in which one more peer may be connected, with its geohash on one line. -/
theorem onOneLine_setState {m : StargazerMap F Channel} (h : OnOneLine m) (peerId : PeerId)
    {blob : ConsentBlob F} (oneLine : '\n' ∉ blob.birth.geohash.toList) :
    OnOneLine (m.setState peerId (.connected blob)) := by
  apply onOneLine_iff.2
  intro other found state
  rw [stateOf_setState] at state
  split_ifs at state
  · obtain ⟨s, -, same⟩ := Option.map_eq_some_iff.1 state
    obtain rfl := StargazerState.connected.inj same
    exact oneLine
  · exact onOneLine_iff.1 h other found state

theorem FileInv.acceptConsent (hT : T.RoundTrips) (h : st.FileInv T) {shown : PeerId}
    {order : List (Stargazer F Channel)} {reply : Option (ConsentBlob F)}
    (perm : order.Perm st.stargazers.rows)
    (oneLine : ∀ blob ∈ reply, '\n' ∉ blob.birth.geohash.toList) :
    (st.acceptConsent T shown order reply).FileInv T := by
  unfold AppState.acceptConsent
  split
  · exact h
  · next peerId channel first =>
    have state := stateOf_firstIncoming perm first
    have declined := h.withMap (sameConnected_setState peerId .discovered
      (fun blob => by simp [state]) fun blob none => nomatch none)
    split
    · exact declined
    · split
      · next theirBlob =>
        have saved := h.saved hT (onOneLine_setState h.rows peerId (oneLine theirBlob rfl))
        exact ⟨saved.rows, saved.completions, saved.peersFile⟩
      · exact ⟨declined.rows, declined.completions, declined.peersFile⟩

theorem FileInv.exchange (h : st.FileInv T) (i : ℕ) (channel : Channel)
    {reply : Option (ConsentBlob F)} (oneLine : ∀ blob ∈ reply, '\n' ∉ blob.birth.geohash.toList) :
    (st.exchange i channel reply).FileInv T := by
  unfold AppState.exchange
  split
  · next task theirBlob found =>
    refine ⟨h.rows, fun msg hm => ?_, h.peersFile⟩
    rcases List.mem_append.1 hm with old | new
    · exact h.completions msg old
    · rw [List.mem_singleton.1 new]
      exact oneLine theirBlob rfl
  · exact ⟨h.rows, h.completions, h.peersFile⟩

/-- A finished exchange connects its peer, and the file is written unless it was connected
before. -/
theorem FileInv.connectionComplete (hT : T.RoundTrips) (h : st.FileInv T) (i : ℕ) :
    (st.connectionComplete T solarMonth i).FileInv T := by
  unfold AppState.connectionComplete
  split
  · exact h
  · next msg found =>
    have oneLine := h.completions msg (List.mem_of_getElem? found)
    have rows : OnOneLine (st.connect solarMonth msg) := by
      apply onOneLine_iff.2
      intro other blob state
      rw [AppState.connect, stateOf_setStateOrInsert] at state
      split_ifs at state
      · obtain rfl := StargazerState.connected.inj (Option.some.inj state)
        exact oneLine
      · exact onOneLine_iff.1 h.rows other blob state
    have left : ∀ m ∈ st.completions.eraseIdx i, '\n' ∉ m.theirBlob.birth.geohash.toList :=
      fun m hm => h.completions m (List.mem_of_mem_eraseIdx hm)
    cases isNew : msg.isNew with
    | true => exact ⟨rows, left, (h.saved hT rows).peersFile⟩
    | false =>
      refine ⟨rows, left, fun peerId loaded => ?_⟩
      obtain ⟨blob, was⟩ := Option.isSome_iff_exists.1 (h.peersFile peerId loaded)
      have state := stateOf_setStateOrInsert st.stargazers
        (Stargazer.connected solarMonth msg.peerId msg.theirBlob) peerId
      split_ifs at state
      · exact Option.isSome_iff_exists.2 ⟨_, connectedBlob?_eq_some_stateOf.2 state⟩
      · rw [connectedBlob?_eq_some_stateOf.1 was] at state
        exact Option.isSome_iff_exists.2 ⟨_, connectedBlob?_eq_some_stateOf.2 state⟩

/-! ### Starting again -/

/-- A start connects every peer of the file. -/
theorem connected_loadStargazers (solarMonth : F → UInt8) (pendingTsv : String)
    {peersTsv : String} {peerId : PeerId}
    (loaded : (loadConnectedStargazers T peersTsv peerId).isSome) :
    ∃ s ∈ (loadStargazers T solarMonth peersTsv pendingTsv : StargazerMap F Channel),
      s.peerId = peerId ∧ s.connectedBlob.isSome := by
  obtain ⟨blob, found⟩ := Option.isSome_iff_exists.1 loaded
  have entries : ∃ entry ∈ peerEntries T peersTsv,
      (Stargazer.connected solarMonth entry.1 entry.2 : Stargazer F Channel).peerId = peerId :=
    ⟨(peerId, blob), mem_of_collect found, rfl⟩
  obtain ⟨entry, -, id, hmem⟩ := Table.exists_mem_foldl_upsert
    (Table.empty : StargazerMap F Channel) entries
  exact ⟨_, Table.foldl_insertOrIgnore_of_mem hmem, id, rfl⟩

theorem FileInv.restart (st : AppState F Channel) : (st.restart T solarMonth).FileInv T where
  rows s hs blob found := by
    rcases mem_loadStargazers hs with ⟨birth, state, entry⟩ | ⟨state, -⟩
    · have same : birth = blob := by simpa [Stargazer.connectedBlob, state] using found
      exact same ▸ (loaded_blob entry).2
    · simp [Stargazer.connectedBlob, state] at found
  completions := by simp [AppState.restart]
  peersFile peerId loaded := by
    obtain ⟨s, hs, id, found⟩ := connected_loadStargazers solarMonth st.pendingTsv loaded
    obtain ⟨blob, hblob⟩ := Option.isSome_iff_exists.1 found
    exact Option.isSome_iff_exists.2 ⟨blob, connectedBlob?_eq_some.2 ⟨s, hs, id, hblob⟩⟩

/-! ## Runs -/

theorem FileInv.step (hT : T.RoundTrips) (h : st.FileInv T) {e : AppEvent F Channel}
    (enabled : st.Enabled e) (oneLine : e.OneLine) : (st.step T solarMonth e).FileInv T := by
  cases e with
  | removeStargazer peerId => exact h.removeStargazer hT peerId
  | acceptConsent shown order reply => exact h.acceptConsent hT enabled oneLine
  | peerChannelClosed peerId => exact ⟨h.rows, h.completions, h.peersFile⟩
  | exchange i channel reply => exact h.exchange i channel oneLine
  | connectionComplete i => exact h.connectionComplete hT i
  | restart => exact FileInv.restart st
  | _ => exact h.of_keepsLinks (keepsLinks_step enabled rfl)

theorem fileInv_fresh (relayPk : Bytes32) : (fresh relayPk : AppState F Channel).FileInv T where
  rows s hs := absurd hs (Table.not_mem_empty s)
  completions := by simp [fresh]
  peersFile _ loaded := absurd loaded Bool.false_ne_true

end AppState

/-- In a run in which no received blob has a newline in its geohash, a restart connects only
peers that are connected already. -/
theorem restart_clean_of_oneLine {T : FloatText F} (hT : T.RoundTrips) (solarMonth : F → UInt8)
    (relayPk : Bytes32) (es : List (AppEvent F Channel))
    (run : Along (AppState.step T solarMonth) (fun st e => st.Enabled e ∧ e.OneLine)
      (AppState.fresh relayPk) es) :
    (exec (AppState.step T solarMonth) (AppState.fresh relayPk) es).Clean T .restart := by
  have keep : ∀ (st : AppState F Channel) e, st.FileInv T → st.Enabled e ∧ e.OneLine →
      (st.step T solarMonth e).FileInv T := fun _ _ h ok => h.step hT ok.1 ok.2
  have inv := exec_invariant keep (AppState.fileInv_fresh relayPk) run
  exact fun peerId loaded => .inr (inv.peersFile peerId loaded)

end Zodia.App
