import Zodia.App.ConsentFiles

/-!
# Removing a stargazer

The user removes a peer, and until the user proposes to it or accepts a request of it again it
should be neither connected nor reachable over an open channel, and `peers.tsv` should not name
it. The exchanges that run beside the application are not cancelled, and their messages connect
a peer in whatever state it is; and only a connected peer loses its channel when it is removed.

## Main definitions

* `RemovalState` — the application with the peers that are removed.
* `AppState.Gone` — the peer is not connected, has no channel and is not in the file.
* `RemovalState.Final` — this holds of every removed peer.
* `RemovalState.Settled` — the step neither completes an exchange with a removed peer nor leaves
  a channel behind.
* `AppState.Quiet` — no exchange with the peer is under way or can start by itself.
-/

namespace Zodia.App

open Lib StargazerMap

variable {F Channel : Type}

/-! ## The model -/

/-- The application, and the peers the user has removed and neither proposed to nor accepted
since. The program keeps no such record. -/
structure RemovalState (F Channel : Type) where
  app : AppState F Channel
  removed : List PeerId

/-- The removed peers after an event. -/
def removedAfter (removed : List PeerId) : AppEvent F Channel → List PeerId
  | .removeStargazer peerId => peerId :: removed
  | .proposeConsent peerId => removed.filter (· ≠ peerId)
  | .acceptConsent shown _ _ => removed.filter (· ≠ shown)
  | _ => removed

namespace AppState

/-- The peer is not connected, and there is no open channel to it. -/
structure Away (st : AppState F Channel) (peerId : PeerId) : Prop where
  notConnected : ∀ blob, st.stargazers.stateOf peerId ≠ some (.connected blob)
  noChannel : st.connectedChannels.find? peerId = none

/-- Nor is it written to `peers.tsv`. -/
structure Gone (T : FloatText F) (st : AppState F Channel) (peerId : PeerId) : Prop extends
    st.Away peerId where
  notWritten : loadConnectedStargazers T st.peersTsv peerId = none

end AppState

namespace RemovalState

variable (T : FloatText F) (solarMonth : F → UInt8)

def fresh (relayPk : Bytes32) : RemovalState F Channel := ⟨.fresh relayPk, []⟩

def step (s : RemovalState F Channel) (e : AppEvent F Channel) : RemovalState F Channel :=
  ⟨s.app.step T solarMonth e, removedAfter s.removed e⟩

/-- Every removal was final. -/
def Final (s : RemovalState F Channel) : Prop := ∀ peerId ∈ s.removed, s.app.Gone T peerId

/-- A peer is removed while it is connected or has no open channel; accepting a request of
another peer does not pick a removed one; no exchange with a removed peer is completed. -/
def Settled (s : RemovalState F Channel) : AppEvent F Channel → Prop
  | .removeStargazer peerId =>
    (∃ blob, s.app.stargazers.stateOf peerId = some (.connected blob)) ∨
      s.app.connectedChannels.find? peerId = none
  | .acceptConsent shown order _ => ∀ peerId channel,
      firstIncoming order = some (peerId, channel) → peerId ∈ s.removed →
        peerId = shown ∨ s.app.birth = none
  | .connectionComplete i => ∀ msg, s.app.completions[i]? = some msg → msg.peerId ∉ s.removed
  | _ => True

end RemovalState

/-! ## What a step does to a peer that is away -/

namespace AppState

variable {T : FloatText F} {solarMonth : F → UInt8} {st st' : AppState F Channel} {p q : PeerId}

/-- The file names no peer that is not connected. -/
theorem Away.gone (h : st.Away p) (inv : st.FileInv T) : st.Gone T p := by
  refine ⟨h, ?_⟩
  by_contra written
  obtain ⟨blob, found⟩ :=
    Option.isSome_iff_exists.1 (inv.peersFile p (Option.isSome_iff_ne_none.2 written))
  exact h.notConnected blob (connectedBlob?_eq_some_stateOf.1 found)

theorem Away.of_keepsLinks (h : st.Away p) (keeps : KeepsLinks st st') : st'.Away p where
  notConnected blob := (keeps.connected p blob).not.2 (h.notConnected blob)
  noChannel := keeps.channels ▸ h.noChannel

theorem Away.peerChannelClosed (h : st.Away p) :
    (st.step T solarMonth (.peerChannelClosed q)).Away p := by
  refine ⟨h.notConnected, ?_⟩
  rw [AppState.step, Table.find?_erase]
  split_ifs
  · rfl
  · exact h.noChannel

theorem Away.exchange (h : st.Away p) {i : ℕ} {channel : Channel}
    {reply : Option (ConsentBlob F)} : (st.exchange i channel reply).Away p := by
  unfold AppState.exchange
  split <;> exact ⟨h.notConnected, h.noChannel⟩

theorem Away.removeStargazer (h : st.Away p) : (st.removeStargazer T q).Away p := by
  refine ⟨fun blob => ?_, ?_⟩
  · rw [stargazers_removeStargazer, stateOf_erase]
    split_ifs
    · exact nofun
    · exact h.notConnected blob
  · unfold AppState.removeStargazer
    split
    · exact h.noChannel
    · rw [Table.find?_erase]
      split_ifs
      · rfl
      · exact h.noChannel
    · exact h.noChannel

/-- A peer is away after its removal exactly if it was connected or had no channel. -/
theorem away_removeStargazer_iff : (st.removeStargazer T p).Away p ↔
    (∃ blob, st.stargazers.stateOf p = some (.connected blob)) ∨
      st.connectedChannels.find? p = none := by
  have erased : ∀ blob, (st.removeStargazer T p).stargazers.stateOf p ≠ some (.connected blob) := by
    intro blob
    rw [stargazers_removeStargazer, stateOf_erase, if_pos rfl]
    simp
  have channels : (st.removeStargazer T p).connectedChannels.find? p = none ↔
      (∃ blob, st.stargazers.stateOf p = some (.connected blob)) ∨
        st.connectedChannels.find? p = none := by
    unfold AppState.removeStargazer
    split
    · next state => simp [state]
    · next blob state => simp [state, Table.find?_erase]
    · next notSought notConnected =>
      have none : ¬ ∃ blob, st.stargazers.stateOf p = some (.connected blob) := by
        rintro ⟨blob, state⟩
        exact notConnected blob state
      simp [none]
  exact ⟨fun away => channels.1 away.noChannel, fun settled => ⟨erased, channels.2 settled⟩⟩

/-- What is written for another peer does not matter. -/
theorem Away.of_other (h : st.Away p) (other : q ≠ p) {state : StargazerState F Channel}
    (map : st'.stargazers = st.stargazers.setState q state)
    (channels : st'.connectedChannels.find? p = st.connectedChannels.find? p) : st'.Away p where
  notConnected blob := by
    rw [map, stateOf_setState, if_neg other]
    exact h.notConnected blob
  noChannel := channels.trans h.noChannel

/-- Accepting a request connects the peer it picks, or opens a channel to it, unless there is no
birth data. -/
theorem Away.acceptConsent (h : st.Away p) {shown : PeerId} {order : List (Stargazer F Channel)}
    {reply : Option (ConsentBlob F)} :
    (st.acceptConsent T shown order reply).Away p ↔
      ∀ channel, firstIncoming order = some (p, channel) → st.birth = none := by
  unfold AppState.acceptConsent
  cases first : firstIncoming order with
  | none => exact iff_of_true h (by simp)
  | some request =>
    obtain ⟨q, channel⟩ := request
    cases birth : st.birth with
    | none =>
      simp only [makeConsentBlob, birth, Option.map_none]
      refine iff_of_true ⟨fun blob => ?_, h.noChannel⟩ fun _ _ => trivial
      rw [stateOf_setState]
      split_ifs
      · cases st.stargazers.stateOf p <;> simp
      · exact h.notConnected blob
    | some birth =>
      simp only [makeConsentBlob, birth, Option.map_some]
      by_cases same : q = p
      · subst same
        refine iff_of_false (fun away => ?_) (by simp)
        have open_ := away.noChannel
        cases reply <;> simp [Table.find?_upsert] at open_
      · refine iff_of_true ?_ fun c picked => absurd (Prod.mk.inj (Option.some.inj picked)).1 same
        have channels : Table.find? (st.connectedChannels.upsert (q, channel)) p =
            st.connectedChannels.find? p := by
          rw [Table.find?_upsert, if_neg same]
        cases reply with
        | none => exact h.of_other same rfl channels
        | some theirBlob => exact h.of_other same rfl channels

/-- A completed exchange connects its peer. -/
theorem Away.connectionComplete (h : st.Away p) {i : ℕ} :
    (st.connectionComplete T solarMonth i).Away p ↔
      ∀ msg, st.completions[i]? = some msg → msg.peerId ≠ p := by
  unfold AppState.connectionComplete
  cases found : st.completions[i]? with
  | none => exact iff_of_true h fun msg none => nomatch none
  | some msg =>
    have state : (st.connect solarMonth msg).stateOf p =
        if msg.peerId = p then some (.connected msg.theirBlob) else st.stargazers.stateOf p :=
      stateOf_setStateOrInsert ..
    have channel : (st.connectedChannels.upsert (msg.peerId, msg.channel)).find? p =
        if msg.peerId = p then some (msg.peerId, msg.channel) else st.connectedChannels.find? p :=
      Table.find?_upsert ..
    by_cases same : msg.peerId = p
    · refine iff_of_false (fun away => ?_) fun other => other msg rfl same
      rw [if_pos same] at state
      exact away.notConnected msg.theirBlob state
    · refine iff_of_true ⟨fun blob => ?_, ?_⟩ fun msg' completed => ?_
      · rw [if_neg same] at state
        exact fun connected => h.notConnected blob (state.symm.trans connected)
      · rw [if_neg same] at channel
        exact channel.trans h.noChannel
      · cases completed
        exact same

theorem Gone.restart (h : st.Gone T p) : (st.restart T solarMonth).Away p := by
  refine ⟨fun blob state => ?_, rfl⟩
  obtain ⟨s, found, connected⟩ := Option.map_eq_some_iff.1 state
  obtain ⟨hs, rfl⟩ := Table.find?_eq_some.1 found
  rcases mem_loadStargazers hs with ⟨birth, -, entry⟩ | ⟨pending, -⟩
  · have written := collect_isSome entry
    rw [← loadConnectedStargazers, h.notWritten] at written
    cases written
  · rw [pending] at connected
    cases connected

/-- A step that is no removal, no acceptance, no completion and no start keeps a peer away. -/
theorem Gone.step (solarMonth : F → UInt8) (h : st.Gone T p) {e : AppEvent F Channel}
    (enabled : st.Enabled e) :
    (st.step T solarMonth e).Away p ↔
      match e with
      | .acceptConsent _ order _ =>
        ∀ channel, firstIncoming order = some (p, channel) → st.birth = none
      | .connectionComplete i => ∀ msg, st.completions[i]? = some msg → msg.peerId ≠ p
      | _ => True := by
  have away := h.toAway
  cases e with
  | acceptConsent shown order reply => exact away.acceptConsent
  | connectionComplete i => exact away.connectionComplete
  | removeStargazer q => exact iff_of_true away.removeStargazer trivial
  | peerChannelClosed q => exact iff_of_true away.peerChannelClosed trivial
  | exchange i channel reply => exact iff_of_true away.exchange trivial
  | restart => exact iff_of_true h.restart trivial
  | _ => exact iff_of_true (away.of_keepsLinks (keepsLinks_step enabled rfl)) trivial

end AppState

/-! ## Runs -/

namespace RemovalState

variable {T : FloatText F} {solarMonth : F → UInt8} {s : RemovalState F Channel}

/-- A removed peer stays away in a step exactly if the step is settled. -/
theorem Final.step (hT : T.RoundTrips) (h : s.Final T) (inv : s.app.FileInv T)
    {e : AppEvent F Channel} (enabled : s.app.Enabled e) (oneLine : e.OneLine) :
    (s.step T solarMonth e).Final T ↔ s.Settled e := by
  have after : (s.app.step T solarMonth e).FileInv T := inv.step hT enabled oneLine
  have final : (s.step T solarMonth e).Final T ↔
      ∀ p ∈ removedAfter s.removed e, (s.app.step T solarMonth e).Away p :=
    forall₂_congr fun p _ => ⟨fun gone => gone.toAway, fun away => away.gone after⟩
  have kept := fun p hp => (h p hp).step solarMonth enabled
  rw [final]
  cases e with
  | removeStargazer q =>
    refine List.forall_mem_cons.trans ((and_iff_left fun p hp => (kept p hp).2 trivial).trans ?_)
    exact AppState.away_removeStargazer_iff
  | proposeConsent q =>
    exact iff_of_true (fun p hp => (kept p (List.mem_filter.1 hp).1).2 trivial) trivial
  | acceptConsent shown order reply =>
    constructor
    · intro away p channel picked removed
      by_cases same : p = shown
      · exact .inl same
      · have hp : p ∈ s.removed.filter (· ≠ shown) := List.mem_filter.2 ⟨removed, by simpa⟩
        exact .inr ((kept p removed).1 (away p hp) channel picked)
    · intro settled p hp
      obtain ⟨removed, other⟩ := List.mem_filter.1 hp
      refine (kept p removed).2 fun channel picked => ?_
      exact (settled p channel picked removed).resolve_left (by simpa using other)
  | connectionComplete i =>
    constructor
    · intro away msg completed removed
      exact (kept msg.peerId removed).1 (away msg.peerId removed) msg completed rfl
    · intro settled p removed
      exact (kept p removed).2 fun msg completed same => settled msg completed (same ▸ removed)
  | _ => exact iff_of_true (fun p hp => (kept p hp).2 trivial) trivial

end RemovalState

/-- In a run in which no received blob has a newline in its geohash, every removal of a peer is
final until the user proposes to it or accepts its request again, exactly if every step is
settled. -/
theorem removal_final_iff {T : FloatText F} (hT : T.RoundTrips) (solarMonth : F → UInt8)
    (relayPk : Bytes32) (es : List (AppEvent F Channel))
    (run : Along (RemovalState.step T solarMonth) (fun s e => s.app.Enabled e ∧ e.OneLine)
      (.fresh relayPk) es) :
    Always (RemovalState.step T solarMonth) (RemovalState.Final T) (.fresh relayPk) es ↔
      Along (RemovalState.step T solarMonth) RemovalState.Settled (.fresh relayPk) es := by
  have keep : ∀ (s : RemovalState F Channel) e, s.app.FileInv T →
      s.app.Enabled e ∧ e.OneLine → (s.step T solarMonth e).app.FileInv T :=
    fun s e inv ok => inv.step hT ok.1 ok.2
  have start : (RemovalState.fresh relayPk : RemovalState F Channel).Final T :=
    fun p hp => absurd hp List.not_mem_nil
  rw [Along.always_iff keep (fun s e inv ok final => final.step hT inv ok.1 ok.2)
    (AppState.fileInv_fresh relayPk) run]
  exact and_iff_right start

/-! ### A peer that comes back -/

/-- The user proposes to peer 1, and the exchange with it goes well. -/
private def sought : List (AppEvent ℕ Unit) :=
  [.confirmBirth ⟨2448000, "u4pru"⟩, .networkStarted, .proposeConsent (Vector.replicate 32 1),
    .reconnect (Vector.replicate 32 1), .exchange 0 () (some (blobOf 1))]

/-- Then come two events that need nothing. -/
private theorem good_sought (e e' : AppEvent ℕ Unit)
    (he : ∀ s : RemovalState ℕ Unit, s.app.Enabled e ∧ e.OneLine)
    (he' : ∀ s : RemovalState ℕ Unit, s.app.Enabled e' ∧ e'.OneLine) :
    Along (RemovalState.step decimalText fun _ => 1) (fun s e => s.app.Enabled e ∧ e.OneLine)
      (.fresh (Vector.replicate 32 9)) (sought ++ [e, e']) := by
  have oneLine : ∀ blob ∈ some (blobOf 1), '\n' ∉ blob.birth.geohash.toList := by
    intro blob same
    cases same
    decide
  exact ⟨⟨trivial, trivial⟩, ⟨trivial, trivial⟩, ⟨trivial, trivial⟩, ⟨trivial, trivial⟩,
    ⟨trivial, oneLine⟩, he _, he' _, trivial⟩

/-- The peer is removed once it is connected. -/
theorem connected_removal_final :
    Always (RemovalState.step decimalText fun _ => 1) (RemovalState.Final decimalText)
      (.fresh (Vector.replicate 32 9))
      (sought ++ [.connectionComplete 0, .removeStargazer (Vector.replicate 32 1)]) := by
  have run := good_sought (.connectionComplete 0) (.removeStargazer (Vector.replicate 32 1))
    (fun _ => ⟨trivial, trivial⟩) fun _ => ⟨trivial, trivial⟩
  refine (removal_final_iff decimalText_roundTrips _ _ _ run).2 ?_
  refine ⟨trivial, trivial, trivial, trivial, trivial, fun msg _ => List.not_mem_nil,
    .inl ⟨blobOf 1, rfl⟩, trivial⟩

/-- The peer is removed while it is sought, and the message of the exchange connects it. -/
theorem removed_comes_back :
    let es := sought ++ [.removeStargazer (Vector.replicate 32 1), .connectionComplete 0]
    Along (RemovalState.step decimalText fun _ => 1) (fun s e => s.app.Enabled e ∧ e.OneLine)
        (.fresh (Vector.replicate 32 9)) es ∧
      ¬ Always (RemovalState.step decimalText fun _ => 1) (RemovalState.Final decimalText)
        (.fresh (Vector.replicate 32 9)) es := by
  refine ⟨good_sought _ _ (fun _ => ⟨trivial, trivial⟩) fun _ => ⟨trivial, trivial⟩,
    fun final => ?_⟩
  have gone := final.last (Vector.replicate 32 1) (List.mem_singleton.2 rfl)
  exact gone.notConnected (blobOf 1) rfl

/-! ## Removing a peer with no exchange under way -/

namespace AppState

variable {T : FloatText F} {solarMonth : F → UInt8} {st st' : AppState F Channel} {p q : PeerId}

/-- No exchange with the peer is under way, and none is started but by the user or the peer. -/
structure Quiet (st : AppState F Channel) (p : PeerId) : Prop where
  tasks : ∀ task ∈ st.tasks, task.peerId ≠ p
  completions : ∀ msg ∈ st.completions, msg.peerId ≠ p
  notSought : st.stargazers.stateOf p ≠ some .outgoingPending
  pendingFile : p ∉ loadPending st.pendingTsv

/-- The event neither has the user propose to the peer nor accepts a request of it. -/
def Leaves (p : PeerId) (st : AppState F Channel) : AppEvent F Channel → Prop
  | .proposeConsent q => q ≠ p
  | .acceptConsent _ order _ =>
    ∀ channel, firstIncoming order = some (p, channel) → st.birth = none
  | _ => True

/-- `pending.tsv` names only the peers that are sought. -/
theorem not_mem_savePending {m : StargazerMap F Channel}
    (notSought : m.stateOf p ≠ some .outgoingPending) : p ∉ loadPending (savePending m) := by
  rw [loadPending_savePending]
  intro mem
  obtain ⟨s, hs, rfl⟩ := List.mem_map.1 mem
  obtain ⟨stored, seeking⟩ := List.mem_filter.1 hs
  have found : m.find? s.peerId = some s := Table.find?_eq_some.2 ⟨stored, rfl⟩
  refine notSought ?_
  rw [stateOf, found, Option.map_some]
  unfold Stargazer.seeking at seeking
  cases state : s.state <;> simp_all

theorem Quiet.withMap (h : st.Quiet p) {m : StargazerMap F Channel}
    (notSought : m.stateOf p ≠ some .outgoingPending) :
    ({ st with stargazers := m } : AppState F Channel).Quiet p :=
  ⟨h.tasks, h.completions, notSought, h.pendingFile⟩

/-- The map is written, and the file with it. -/
theorem Quiet.saved (h : st.Quiet p) {m : StargazerMap F Channel}
    (notSought : m.stateOf p ≠ some .outgoingPending) :
    ({ st with stargazers := m, pendingTsv := savePending m } : AppState F Channel).Quiet p :=
  ⟨h.tasks, h.completions, notSought, not_mem_savePending notSought⟩

theorem notSought_setState {m : StargazerMap F Channel} {state : StargazerState F Channel}
    (old : m.stateOf p ≠ some .outgoingPending) (new : state ≠ .outgoingPending) :
    (m.setState q state).stateOf p ≠ some .outgoingPending := by
  rw [stateOf_setState]
  split_ifs
  · cases m.stateOf p with
    | none => exact nofun
    | some was => exact fun same => new (Option.some.inj same)
  · exact old

theorem notSought_setStateOrInsert {m : StargazerMap F Channel} {fresh : Stargazer F Channel}
    (old : m.stateOf p ≠ some .outgoingPending)
    (new : fresh.peerId = p → fresh.state ≠ .outgoingPending) :
    (m.setStateOrInsert fresh).stateOf p ≠ some .outgoingPending := by
  rw [stateOf_setStateOrInsert]
  split_ifs with same
  · exact fun sought => new same (Option.some.inj sought)
  · exact old

theorem notSought_erase {m : StargazerMap F Channel}
    (old : m.stateOf p ≠ some .outgoingPending) :
    StargazerMap.stateOf (m.erase q) p ≠ some .outgoingPending := by
  rw [stateOf_erase]
  split_ifs
  · exact nofun
  · exact old

/-- A task for another peer. -/
theorem Quiet.addTask (h : st.Quiet p) {task : ConsentTask F} (other : task.peerId ≠ p) :
    ({ st with tasks := st.tasks ++ [task] } : AppState F Channel).Quiet p := by
  refine ⟨fun t ht => ?_, h.completions, h.notSought, h.pendingFile⟩
  rcases List.mem_append.1 ht with old | new
  · exact h.tasks t old
  · rwa [List.mem_singleton.1 new]

theorem Quiet.dropTask (h : st.Quiet p) (i : ℕ) :
    ({ st with tasks := st.tasks.eraseIdx i } : AppState F Channel).Quiet p :=
  ⟨fun task ht => h.tasks task (List.mem_of_mem_eraseIdx ht), h.completions, h.notSought,
    h.pendingFile⟩

theorem Quiet.reconnect (h : st.Quiet p) (away : st.Away p) : (st.reconnect q).Quiet p := by
  unfold AppState.reconnect
  split
  · next isNew ourBlob kind _ _ =>
    refine h.addTask fun same => ?_
    subst same
    unfold reconnectKind at kind
    split at kind
    · next birth state => exact away.notConnected birth state
    · next state => exact h.notSought state
    · cases kind
  · exact h

theorem Quiet.proposeConsent (h : st.Quiet p) (other : q ≠ p) : (st.proposeConsent q).Quiet p := by
  unfold AppState.proposeConsent
  split
  · exact ⟨h.tasks, h.completions, h.notSought, h.pendingFile⟩
  · exact ⟨h.tasks, h.completions, h.notSought, h.pendingFile⟩
  · have left : (st.stargazers.setStateOrInsert (.outgoingPending q)).stateOf p ≠
        some .outgoingPending :=
      notSought_setStateOrInsert h.notSought fun same => absurd same other
    exact ⟨h.tasks, h.completions, left, not_mem_savePending left⟩

theorem Quiet.removeStargazer (h : st.Quiet p) : (st.removeStargazer T q).Quiet p := by
  have left := notSought_erase (q := q) h.notSought
  unfold AppState.removeStargazer
  split
  · exact ⟨h.tasks, h.completions, left, not_mem_savePending left⟩
  · exact ⟨h.tasks, h.completions, left, h.pendingFile⟩
  · exact ⟨h.tasks, h.completions, left, h.pendingFile⟩

theorem Quiet.acceptConsent (h : st.Quiet p) {shown : PeerId} {order : List (Stargazer F Channel)}
    {reply : Option (ConsentBlob F)} : (st.acceptConsent T shown order reply).Quiet p := by
  unfold AppState.acceptConsent
  split
  · exact h
  · split
    · exact h.withMap (notSought_setState h.notSought nofun)
    · split
      · exact ⟨h.tasks, h.completions, notSought_setState h.notSought nofun, h.pendingFile⟩
      · exact ⟨h.tasks, h.completions, notSought_setState h.notSought nofun, h.pendingFile⟩

theorem Quiet.rejectConsent (h : st.Quiet p) {order : List (Stargazer F Channel)} :
    (st.rejectConsent order).Quiet p := by
  unfold AppState.rejectConsent
  split
  · exact h
  · exact h.withMap (notSought_setState h.notSought nofun)

theorem Quiet.peerDiscovered (h : st.Quiet p) {blob : AnnounceBlob} {approx : List String} :
    (st.peerDiscovered q blob approx).Quiet p := by
  unfold AppState.peerDiscovered
  split_ifs
  · refine h.withMap ?_
    rw [stateOf_announced]
    exact h.notSought
  · refine h.withMap ?_
    rw [stateOf, Table.find?_upsert]
    split_ifs
    · simp [Stargazer.discovered]
    · exact h.notSought

theorem Quiet.peerLeft (h : st.Quiet p) : (st.peerLeft q).Quiet p := by
  unfold AppState.peerLeft
  split
  · exact h.withMap (notSought_erase h.notSought)
  · exact h.withMap (notSought_erase h.notSought)
  · exact h.withMap (notSought_setState h.notSought nofun)
  · exact h

theorem Quiet.incomingChannel (h : st.Quiet p) (away : st.Away p) {channel : Channel} :
    (st.incomingChannel q channel).Quiet p := by
  unfold AppState.incomingChannel
  split
  · next isNew kind =>
    split
    · refine h.addTask fun same => ?_
      subst same
      unfold autoKind at kind
      split at kind
      · next state => exact h.notSought state
      · next birth state => exact away.notConnected birth state
      · cases kind
    · exact h
  · exact h.withMap (notSought_setStateOrInsert h.notSought fun _ => nofun)

theorem Quiet.exchange (h : st.Quiet p) {i : ℕ} {channel : Channel}
    {reply : Option (ConsentBlob F)} : (st.exchange i channel reply).Quiet p := by
  unfold AppState.exchange
  split
  · next task theirBlob found =>
    have dropped := h.dropTask i
    refine ⟨dropped.tasks, fun msg hm => ?_, h.notSought, h.pendingFile⟩
    rcases List.mem_append.1 hm with old | new
    · exact h.completions msg old
    · rw [List.mem_singleton.1 new]
      exact h.tasks task (List.mem_of_getElem? found)
  · exact h.dropTask i

theorem Quiet.connectionComplete (h : st.Quiet p) {i : ℕ} :
    (st.connectionComplete T solarMonth i).Quiet p := by
  unfold AppState.connectionComplete
  split
  · exact h
  · next msg found =>
    have left : (st.connect solarMonth msg).stateOf p ≠ some .outgoingPending :=
      notSought_setStateOrInsert h.notSought fun _ => nofun
    have rest : ∀ m ∈ st.completions.eraseIdx i, m.peerId ≠ p :=
      fun m hm => h.completions m (List.mem_of_mem_eraseIdx hm)
    cases isNew : msg.isNew with
    | true => exact ⟨h.tasks, rest, left, not_mem_savePending left⟩
    | false => exact ⟨h.tasks, rest, left, h.pendingFile⟩

theorem Quiet.restart (h : st.Quiet p) : (st.restart T solarMonth).Quiet p := by
  refine ⟨by simp [AppState.restart], by simp [AppState.restart], fun sought => ?_,
    h.pendingFile⟩
  obtain ⟨s, found, state⟩ := Option.map_eq_some_iff.1 sought
  obtain ⟨hs, rfl⟩ := Table.find?_eq_some.1 found
  rcases mem_loadStargazers hs with ⟨birth, connected, -⟩ | ⟨-, pending⟩
  · rw [connected] at state
    cases state
  · exact h.pendingFile pending

theorem Quiet.step (h : st.Quiet p) (away : st.Away p) {e : AppEvent F Channel}
    (leaves : Leaves p st e) : (st.step T solarMonth e).Quiet p := by
  cases e with
  | confirmBirth birth => exact ⟨h.tasks, h.completions, h.notSought, h.pendingFile⟩
  | networkStarted => exact ⟨h.tasks, h.completions, h.notSought, h.pendingFile⟩
  | reconnect q => exact h.reconnect away
  | proposeConsent q => exact h.proposeConsent leaves
  | removeStargazer q => exact h.removeStargazer
  | acceptConsent shown order reply => exact h.acceptConsent
  | rejectConsent order => exact h.rejectConsent
  | peerDiscovered q blob approx => exact h.peerDiscovered
  | peerLeft q => exact h.peerLeft
  | incomingChannel q channel => exact h.incomingChannel away
  | peerChannelClosed q => exact ⟨h.tasks, h.completions, h.notSought, h.pendingFile⟩
  | exchange i channel reply => exact h.exchange
  | connectFailed i => exact h.dropTask i
  | connectionComplete i => exact h.connectionComplete
  | restart => exact h.restart

/-- A removal leaves a peer quiet when no exchange with it is under way, and `pending.tsv` names
it only while it is sought. -/
theorem quiet_removeStargazer (tasks : ∀ task ∈ st.tasks, task.peerId ≠ p)
    (completions : ∀ msg ∈ st.completions, msg.peerId ≠ p)
    (pending : p ∈ loadPending st.pendingTsv → st.stargazers.stateOf p = some .outgoingPending) :
    (st.removeStargazer T p).Quiet p := by
  have left : StargazerMap.stateOf (st.stargazers.erase p) p ≠ some .outgoingPending := by
    rw [stateOf_erase, if_pos rfl]
    exact nofun
  unfold AppState.removeStargazer
  split
  · exact ⟨tasks, completions, left, not_mem_savePending left⟩
  · next blob state =>
    exact ⟨tasks, completions, left, fun mem => by simp [state] at pending; exact pending mem⟩
  · next notSought notConnected =>
    exact ⟨tasks, completions, left, fun mem => notSought (pending mem)⟩

end AppState

/-- A peer that is removed while no exchange with it is under way stays gone, whatever happens,
until the user proposes to it or accepts a request of it. -/
theorem removal_final_of_quiet {T : FloatText F} (hT : T.RoundTrips) (solarMonth : F → UInt8)
    {st : AppState F Channel} {p : PeerId} (inv : st.FileInv T)
    (settled : (∃ blob, st.stargazers.stateOf p = some (.connected blob)) ∨
      st.connectedChannels.find? p = none)
    (tasks : ∀ task ∈ st.tasks, task.peerId ≠ p)
    (completions : ∀ msg ∈ st.completions, msg.peerId ≠ p)
    (pending : p ∈ loadPending st.pendingTsv → st.stargazers.stateOf p = some .outgoingPending)
    (es : List (AppEvent F Channel))
    (run : Along (AppState.step T solarMonth)
      (fun st e => st.Enabled e ∧ e.OneLine ∧ AppState.Leaves p st e)
      (st.removeStargazer T p) es) :
    Always (AppState.step T solarMonth) (AppState.Gone T · p) (st.removeStargazer T p) es := by
  have after := inv.removeStargazer hT p
  have gone := (AppState.away_removeStargazer_iff.2 settled).gone after
  have quiet : (st.removeStargazer T p).Quiet p :=
    AppState.quiet_removeStargazer tasks completions pending
  have keep : ∀ (st : AppState F Channel) e, (st.FileInv T ∧ st.Gone T p ∧ st.Quiet p) →
      (st.Enabled e ∧ e.OneLine ∧ AppState.Leaves p st e) →
      (st.step T solarMonth e).FileInv T ∧ (st.step T solarMonth e).Gone T p ∧
        (st.step T solarMonth e).Quiet p := by
    rintro st e ⟨inv, gone, quiet⟩ ⟨enabled, oneLine, leaves⟩
    have next : (st.step T solarMonth e).FileInv T := inv.step hT enabled oneLine
    refine ⟨next, ((gone.step solarMonth enabled).2 ?_).gone next, quiet.step gone.toAway leaves⟩
    cases e with
    | acceptConsent shown order reply => exact leaves
    | connectionComplete i =>
      exact fun msg found => quiet.completions msg (List.mem_of_getElem? found)
    | _ => trivial
  exact Always.of_invariant keep (fun st h => h.2.1) ⟨after, gone, quiet⟩ run

end Zodia.App
