import Zodia.App.ConnectedChannels

/-!
# Stale close events

Every channel that `accept_channel` takes has a listener, and a listener whose channel fails
sends one `PeerChannelClosed`. The event names the peer and not the channel. When a peer's channel
was replaced by a newer one, the event of the old channel may be handled at any time after that.

## Main definitions

* `ListenerState` — the application with the listeners and the close events in flight.
* `ListenerState.step` — a handler, a listener that ends, a close event that is handled.
* `ListenerState.AllRegistered` — no channel is dropped before it is closed, replaced or removed.
* `ListenerState.Current` — a close event is handled while its channel is the registered one.
-/

namespace Zodia.App

open Lib StargazerMap AppState

variable {F Channel : Type}

/-! ## The registry -/

namespace AppState

variable (st : AppState F Channel)

/-- The channel that a handler registers and hands to `accept_channel`. -/
def accepts : AppEvent F Channel → Option (PeerId × Channel)
  | .acceptConsent _ order _ => do
    let request ← firstIncoming order
    let _ ← st.makeConsentBlob
    return request
  | .connectionComplete i => st.completions[i]?.map fun msg => (msg.peerId, msg.channel)
  | _ => none

/-- What a handler does to a map of channels. -/
def registryAfter (m : ChannelMap Channel) : AppEvent F Channel → ChannelMap Channel
  | .removeStargazer peerId =>
    match st.stargazers.stateOf peerId with
    | some (.connected _) => m.erase peerId
    | _ => m
  | .peerChannelClosed peerId => m.erase peerId
  | .restart => Table.empty
  | e => (st.accepts e).elim m m.upsert

variable {st}

theorem connectedChannels_acceptConsent (T : FloatText F) (shown : PeerId)
    (order : List (Stargazer F Channel)) (reply : Option (ConsentBlob F)) :
    (st.acceptConsent T shown order reply).connectedChannels =
      (st.accepts (.acceptConsent shown order reply)).elim st.connectedChannels
        st.connectedChannels.upsert := by
  cases first : firstIncoming order with
  | none =>
    rw [acceptConsent_of_none first]
    simp [accepts, first]
  | some request =>
    obtain ⟨peerId, channel⟩ := request
    cases birth : st.birth with
    | none =>
      rw [acceptConsent_of_noBirth first birth]
      simp [accepts, first, makeConsentBlob, birth]
    | some ourBirth =>
      cases reply with
      | none =>
        rw [acceptConsent_failed first birth]
        simp [accepts, first, makeConsentBlob, birth]
      | some theirBlob =>
        rw [acceptConsent_replied theirBlob first birth]
        simp [accepts, first, makeConsentBlob, birth]

theorem connectedChannels_step (T : FloatText F) (solarMonth : F → UInt8)
    {e : AppEvent F Channel} (enabled : st.Enabled e) :
    (st.step T solarMonth e).connectedChannels = st.registryAfter st.connectedChannels e := by
  cases e with
  | removeStargazer peerId =>
    simp only [AppState.step, AppState.removeStargazer, registryAfter]
    split <;> split <;> simp_all
  | acceptConsent shown order reply => exact connectedChannels_acceptConsent T shown order reply
  | connectionComplete i =>
    simp only [AppState.step, AppState.connectionComplete, registryAfter, accepts]
    cases st.completions[i]? <;> rfl
  | peerChannelClosed peerId => rfl
  | exchange i channel reply => exact (exchange_maps i channel reply).2
  | restart => rfl
  | _ => exact (keepsLinks_step enabled rfl).channels

/-- A larger map stays larger. -/
theorem registryAfter_mono {m m' : ChannelMap Channel} (h : ∀ entry ∈ m, entry ∈ m')
    (e : AppEvent F Channel) :
    ∀ entry ∈ st.registryAfter m e, entry ∈ st.registryAfter m' e := by
  have erase : ∀ peerId, ∀ entry ∈ m.erase peerId, entry ∈ m'.erase peerId := fun _ entry mem =>
    Table.mem_erase.2 ((Table.mem_erase.1 mem).imp_left (h entry))
  unfold registryAfter
  split
  · split
    · exact erase _
    · exact h
  · exact erase _
  · exact fun _ => id
  · cases st.accepts e with
    | none => exact h
    | some new =>
      intro entry mem
      exact Table.mem_upsert.2 ((Table.mem_upsert.1 mem).imp_left (And.imp_left (h entry)))

/-- An entry of the map is the one the handler registers, or was there for another peer. -/
theorem mem_registryAfter {m : ChannelMap Channel} {e : AppEvent F Channel}
    {entry : PeerId × Channel} (mem : entry ∈ st.registryAfter m e) :
    st.accepts e = some entry ∨
      entry ∈ m ∧ ∀ new, st.accepts e = some new → entry.1 ≠ new.1 := by
  unfold registryAfter at mem
  split at mem
  · refine .inr ⟨?_, by simp [accepts]⟩
    split at mem
    · exact (Table.mem_erase.1 mem).1
    · exact mem
  · exact .inr ⟨(Table.mem_erase.1 mem).1, by simp [accepts]⟩
  · exact absurd mem (Table.not_mem_empty entry)
  · cases new : st.accepts _ with
    | none => exact .inr ⟨by rwa [new] at mem, by simp⟩
    | some accepted =>
      rw [new] at mem
      rcases Table.mem_upsert.1 mem with ⟨old, other⟩ | rfl
      · exact .inr ⟨old, by rintro _ ⟨⟩; exact other⟩
      · exact .inl rfl

end AppState

/-! ## The model -/

/-- The application with the listeners of its channels and the `PeerChannelClosed` events in
flight, each with the channel of its listener, and the channels that were registered and have
not been closed, replaced or removed since. The program keeps no record of these. -/
structure ListenerState (F Channel : Type) where
  app : AppState F Channel
  listeners : List (PeerId × Channel)
  closing : List (PeerId × Channel)
  live : ChannelMap Channel

inductive ListenerEvent (F Channel : Type) where
  | app (e : AppEvent F Channel)
  /-- The listener at place `i` cannot receive any more. -/
  | recvFailed (i : ℕ)
  /-- The close event at place `i` is handled. -/
  | peerChannelClosed (i : ℕ)

namespace ListenerState

section Model

variable (s : ListenerState F Channel)

def fresh (relayPk : Bytes32) : ListenerState F Channel :=
  ⟨.fresh relayPk, [], [], Table.empty⟩

/-- The listeners after a handler: `accept_channel` spawns one if there is a network. -/
def listenersAfter : AppEvent F Channel → List (PeerId × Channel)
  | .restart => []
  | e => if s.app.network then s.listeners ++ (s.app.accepts e).toList else s.listeners

/-- The close events in flight do not outlive the process. -/
def closingAfter : AppEvent F Channel → List (PeerId × Channel)
  | .restart => []
  | _ => s.closing

def step [DecidableEq Channel] (T : FloatText F) (solarMonth : F → UInt8)
    (s : ListenerState F Channel) : ListenerEvent F Channel → ListenerState F Channel
  | .app e =>
    { app := s.app.step T solarMonth e
      listeners := s.listenersAfter e
      closing := s.closingAfter e
      live := s.app.registryAfter s.live e }
  | .recvFailed i =>
    { s with
      listeners := s.listeners.eraseIdx i
      closing := s.closing ++ s.listeners[i]?.toList }
  | .peerChannelClosed i =>
    match s.closing[i]? with
    | none => s
    | some closed =>
      { s with
        app := s.app.step T solarMonth (.peerChannelClosed closed.1)
        closing := s.closing.eraseIdx i
        live := s.live.filter fun entry => entry ≠ closed }

/-- Only a listener sends `PeerChannelClosed`. -/
def Enabled : ListenerEvent F Channel → Prop
  | .app e => s.app.Enabled e ∧ ∀ peerId, e ≠ .peerChannelClosed peerId
  | _ => True

/-- Every channel that was registered and not closed, replaced or removed is registered. -/
def AllRegistered : Prop := ∀ entry ∈ s.live, entry ∈ s.app.connectedChannels

/-- A close event is handled while no other channel of the peer is registered. -/
def Current : ListenerEvent F Channel → Prop
  | .peerChannelClosed i => ∀ closed, s.closing[i]? = some closed →
    ∀ entry ∈ s.app.connectedChannels, entry.1 = closed.1 → entry = closed
  | _ => True

/-- A channel is registered for a peer while no older one has a listener or an event in
flight. -/
def Alone : ListenerEvent F Channel → Prop
  | .app e => ∀ entry, s.app.accepts e = some entry →
    ∀ older ∈ s.listeners ++ s.closing, older.1 ≠ entry.1
  | _ => True

end Model

/-! ## Steps -/

variable [DecidableEq Channel] {T : FloatText F} {solarMonth : F → UInt8}
  {s : ListenerState F Channel}

/-- Nothing is registered that is not live. -/
def Within (s : ListenerState F Channel) : Prop := ∀ entry ∈ s.app.connectedChannels, entry ∈ s.live

theorem Within.step (h : s.Within) {e : ListenerEvent F Channel} (enabled : s.Enabled e) :
    (s.step T solarMonth e).Within := by
  cases e with
  | app e =>
    intro entry mem
    rw [ListenerState.step, connectedChannels_step T solarMonth enabled.1] at mem
    exact registryAfter_mono h e entry mem
  | recvFailed i => exact h
  | peerChannelClosed i =>
    simp only [ListenerState.step]
    split
    · exact h
    · next closed handled =>
      intro entry mem
      obtain ⟨registered, other⟩ := Table.mem_erase.1 mem
      refine Table.mem_filter.2 ⟨h entry registered, decide_eq_true ?_⟩
      rintro rfl
      exact other rfl

theorem AllRegistered.step_iff (h : s.AllRegistered) (within : s.Within)
    {e : ListenerEvent F Channel} (enabled : s.Enabled e) :
    (s.step T solarMonth e).AllRegistered ↔ s.Current e := by
  cases e with
  | app e =>
    refine iff_of_true (fun entry mem => ?_) trivial
    rw [ListenerState.step, connectedChannels_step T solarMonth enabled.1]
    exact registryAfter_mono h e entry mem
  | recvFailed i => exact iff_of_true h trivial
  | peerChannelClosed i =>
    simp only [ListenerState.step, Current]
    cases s.closing[i]? with
    | none => exact iff_of_true h (by simp)
    | some closed =>
      constructor
      · rintro kept _ ⟨⟩ entry registered peer
        by_contra other
        have live : entry ∈ s.live.filter fun entry => entry ≠ closed :=
          Table.mem_filter.2 ⟨within entry registered, decide_eq_true other⟩
        exact (Table.mem_erase.1 (kept entry live)).2 peer
      · intro current entry mem
        obtain ⟨live, other⟩ := Table.mem_filter.1 mem
        refine Table.mem_erase.2 ⟨h entry live, fun peer => ?_⟩
        exact of_decide_eq_true other (current closed rfl entry (h entry live) peer)

/-! ### One channel at a time -/

/-- The listeners and the events in flight belong to the registered channels. -/
def Sole (s : ListenerState F Channel) : Prop :=
  ∀ held ∈ s.listeners ++ s.closing, ∀ entry ∈ s.app.connectedChannels,
    entry.1 = held.1 → entry = held

omit [DecidableEq Channel] in
theorem Sole.current (h : s.Sole) (e : ListenerEvent F Channel) : s.Current e := by
  cases e with
  | peerChannelClosed i =>
    intro closed handled entry registered peer
    have held := List.mem_append_right s.listeners (List.mem_of_getElem? handled)
    exact h closed held entry registered peer
  | _ => trivial

omit [DecidableEq Channel] in
/-- Who holds a channel after a handler. -/
theorem mem_listenersAfter {e : AppEvent F Channel} {held : PeerId × Channel}
    (mem : held ∈ s.listenersAfter e ++ s.closingAfter e) :
    held ∈ s.listeners ++ s.closing ∨ s.app.accepts e = some held := by
  have old : ∀ {l}, l ⊆ s.listeners ++ (s.app.accepts e).toList → held ∈ l ++ s.closing →
      held ∈ s.listeners ++ s.closing ∨ s.app.accepts e = some held := by
    intro l subset mem
    rcases List.mem_append.1 mem with listener | closing
    · rcases List.mem_append.1 (subset listener) with old | new
      · exact .inl (List.mem_append_left _ old)
      · exact .inr (Option.mem_toList.1 new)
    · exact .inl (List.mem_append_right _ closing)
  cases e with
  | restart => cases mem
  | _ =>
    refine old ?_ mem
    unfold listenersAfter
    split_ifs
    · exact List.Subset.refl _
    · exact List.subset_append_left _ _

theorem Sole.step (h : s.Sole) {e : ListenerEvent F Channel} (enabled : s.Enabled e)
    (alone : s.Alone e) : (s.step T solarMonth e).Sole := by
  cases e with
  | app e =>
    intro held mem entry registered peer
    rw [ListenerState.step, connectedChannels_step T solarMonth enabled.1] at registered
    rcases mem_listenersAfter mem with old | new
    · rcases mem_registryAfter registered with accepted | ⟨was, -⟩
      · exact absurd peer.symm (alone entry accepted held old)
      · exact h held old entry was peer
    · rcases mem_registryAfter registered with accepted | ⟨-, other⟩
      · exact Option.some.inj (accepted.symm.trans new)
      · exact absurd peer (other held new)
  | recvFailed i =>
    intro held mem
    refine h held ?_
    rcases List.mem_append.1 mem with listener | closing
    · exact List.mem_append_left _ (List.mem_of_mem_eraseIdx listener)
    · rcases List.mem_append.1 closing with old | ended
      · exact List.mem_append_right _ old
      · exact List.mem_append_left _ (List.mem_of_getElem? (Option.mem_toList.1 ended))
  | peerChannelClosed i =>
    simp only [ListenerState.step]
    split
    · exact h
    · next closed handled =>
      intro held mem entry registered
      have was : held ∈ s.listeners ++ s.closing := by
        rcases List.mem_append.1 mem with listener | closing
        · exact List.mem_append_left _ listener
        · exact List.mem_append_right _ (List.mem_of_mem_eraseIdx closing)
      exact h held was entry (Table.mem_erase.1 registered).1

end ListenerState

/-! ## Runs -/

variable [DecidableEq Channel] (T : FloatText F) (solarMonth : F → UInt8) (relayPk : Bytes32)
  (es : List (ListenerEvent F Channel))

/-- No handler and no close event drops a channel that was neither closed nor replaced nor
removed, exactly if every close event is handled while no other channel of its peer is
registered. -/
theorem allRegistered_iff
    (run : Along (ListenerState.step T solarMonth) ListenerState.Enabled (.fresh relayPk) es) :
    Always (ListenerState.step T solarMonth) ListenerState.AllRegistered (.fresh relayPk) es ↔
      Along (ListenerState.step T solarMonth) ListenerState.Current (.fresh relayPk) es := by
  have within : (ListenerState.fresh relayPk : ListenerState F Channel).Within :=
    fun entry mem => absurd mem (Table.not_mem_empty entry)
  have start : (ListenerState.fresh relayPk : ListenerState F Channel).AllRegistered :=
    fun entry mem => absurd mem (Table.not_mem_empty entry)
  rw [Along.always_iff (fun s e h enabled => h.step enabled)
    (fun s e h enabled registered => registered.step_iff h enabled) within run]
  exact and_iff_right start

/-- In a run in which no peer has two channels at a time no channel is dropped. -/
theorem allRegistered_of_alone
    (run : Along (ListenerState.step T solarMonth) (fun s e => s.Enabled e ∧ s.Alone e)
      (.fresh relayPk) es) :
    Always (ListenerState.step T solarMonth) ListenerState.AllRegistered (.fresh relayPk) es := by
  have sole : (ListenerState.fresh relayPk : ListenerState F Channel).Sole :=
    fun held mem => absurd mem List.not_mem_nil
  have keep : ∀ (s : ListenerState F Channel) e, s.Sole → s.Enabled e ∧ s.Alone e →
      (s.step T solarMonth e).Sole := fun s e h ok => h.step ok.1 ok.2
  refine (allRegistered_iff T solarMonth relayPk es ?_).2 ?_
  · exact Along.of_invariant keep (fun s e _ ok => ok.1) sole run
  · exact Along.of_invariant keep (fun s e h _ => h.current e) sole run

/-- Peer 1 is connected over the channel 0. -/
private def connectedOnce : List (ListenerEvent ℕ ℕ) :=
  [.app (.confirmBirth ⟨2448000, "u4pru"⟩), .app .networkStarted,
    .app (.proposeConsent (Vector.replicate 32 1)), .app (.reconnect (Vector.replicate 32 1)),
    .app (.exchange 0 0 (some (blobOf 1))), .app (.connectionComplete 0)]

/-- It opens the channel 1, and an exchange over it goes well. -/
private def connectedAgain : List (ListenerEvent ℕ ℕ) :=
  [.app (.incomingChannel (Vector.replicate 32 1) 1), .app (.exchange 0 1 (some (blobOf 1))),
    .app (.connectionComplete 0)]

/-- The channel 0 closes before the channel 1 is registered. -/
theorem allRegistered_closed_first :
    Always (ListenerState.step decimalText fun _ => 1) ListenerState.AllRegistered
      (.fresh (Vector.replicate 32 9))
      (connectedOnce ++ [.recvFailed 0, .peerChannelClosed 0] ++ connectedAgain) := by
  refine (allRegistered_iff _ _ _ _ ?_).2 ?_
  · refine Along.of_mem fun s => ?_
    simp [connectedOnce, connectedAgain, ListenerState.Enabled, AppState.Enabled]
  · refine ⟨trivial, trivial, trivial, trivial, trivial, trivial, trivial, ?_, trivial, trivial,
      trivial, trivial⟩
    intro closed handled entry registered _
    exact (List.mem_singleton.1 registered).trans (Option.some.inj handled)

/-- The close event of the channel 0 is handled later, and the channel 1 is dropped. -/
theorem stale_close_drops :
    let es := connectedOnce ++ connectedAgain ++ [.recvFailed 0, .peerChannelClosed 0]
    Along (ListenerState.step decimalText fun _ => 1) ListenerState.Enabled
        (.fresh (Vector.replicate 32 9)) es ∧
      ¬ Always (ListenerState.step decimalText fun _ => 1) ListenerState.AllRegistered
        (.fresh (Vector.replicate 32 9)) es := by
  refine ⟨Along.of_mem fun s => ?_, fun registered => ?_⟩
  · simp [connectedOnce, connectedAgain, ListenerState.Enabled, AppState.Enabled]
  · have live : (Vector.replicate 32 1, 1) ∈ (exec (ListenerState.step decimalText fun _ => 1)
        (.fresh (Vector.replicate 32 9))
        (connectedOnce ++ connectedAgain ++ [.recvFailed 0, .peerChannelClosed 0])).live :=
      List.mem_singleton.2 rfl
    exact absurd (registered.last _ live) (Table.not_mem_empty _)

end Zodia.App
