import Zodia.App.ConsentFiles

/-!
# Channels of connected peers

Chat, relay and calls go over `connected_channels`, so a peer that has a channel there should
have completed the consent exchange over it. Each handler writes the map of the stargazers and
the map of the channels in statements of their own, and `AcceptConsent` writes the second one
even when the exchange has failed.

## Main definitions

* `ExchangeState` — the application with what its exchanges returned.
* `ExchangeState.ChannelsConnected` — every peer with a channel is connected, with a blob that
  it sent over this channel.
* `AppState.Replies` — the exchange of an accepted request returns a blob.
-/

namespace Zodia.App

open Lib StargazerMap AppState

variable {F Channel : Type}

/-! ## The model -/

/-- A blob that came back from an exchange, with the peer and the channel it ran over. -/
structure Exchanged (F Channel : Type) where
  peerId : PeerId
  channel : Channel
  theirBlob : ConsentBlob F

/-- The application, and what its exchanges have returned. The program keeps no such record. -/
structure ExchangeState (F Channel : Type) where
  app : AppState F Channel
  exchanged : List (Exchanged F Channel)

namespace AppState

/-- What the exchange of a step returns. -/
def exchanged (st : AppState F Channel) : AppEvent F Channel → Option (Exchanged F Channel)
  | .acceptConsent _ order reply => do
    let (peerId, channel) ← firstIncoming order
    let _ ← st.makeConsentBlob
    let theirBlob ← reply
    return ⟨peerId, channel, theirBlob⟩
  | .exchange i channel reply => do
    let task ← st.tasks[i]?
    let theirBlob ← reply
    return ⟨task.peerId, channel, theirBlob⟩
  | _ => none

/-- If the user accepts a request, its exchange returns a blob. -/
def Replies (st : AppState F Channel) : AppEvent F Channel → Prop
  | .acceptConsent _ order reply =>
    (firstIncoming order).isSome → st.birth.isSome → reply.isSome
  | _ => True

end AppState

namespace ExchangeState

variable (T : FloatText F) (solarMonth : F → UInt8)

def fresh (relayPk : Bytes32) : ExchangeState F Channel := ⟨.fresh relayPk, []⟩

def step (s : ExchangeState F Channel) (e : AppEvent F Channel) : ExchangeState F Channel :=
  ⟨s.app.step T solarMonth e, (s.app.exchanged e).toList ++ s.exchanged⟩

/-- The peer is connected with a blob that came over the channel. -/
def Completed (s : ExchangeState F Channel) (peerId : PeerId) (channel : Channel) : Prop :=
  ∃ blob, s.app.stargazers.stateOf peerId = some (.connected blob) ∧
    ⟨peerId, channel, blob⟩ ∈ s.exchanged

def ChannelsConnected (s : ExchangeState F Channel) : Prop :=
  ∀ entry ∈ s.app.connectedChannels, s.Completed entry.1 entry.2

/-- The messages that finished tasks sent carry what their exchanges returned. -/
def Reported (s : ExchangeState F Channel) : Prop :=
  ∀ msg ∈ s.app.completions, ⟨msg.peerId, msg.channel, msg.theirBlob⟩ ∈ s.exchanged

/-! ## Steps -/

variable {T : FloatText F} {solarMonth : F → UInt8} {s : ExchangeState F Channel}

theorem Completed.mono {s' : ExchangeState F Channel} {peerId : PeerId} {channel : Channel}
    (h : s.Completed peerId channel) (exchanged : s.exchanged ⊆ s'.exchanged)
    (kept : ∀ blob, s.app.stargazers.stateOf peerId = some (.connected blob) →
      s'.app.stargazers.stateOf peerId = some (.connected blob)) :
    s'.Completed peerId channel := by
  obtain ⟨blob, state, returned⟩ := h
  exact ⟨blob, kept blob state, exchanged returned⟩

theorem exchanged_subset (e : AppEvent F Channel) :
    s.exchanged ⊆ (s.step T solarMonth e).exchanged := List.subset_append_right _ _

/-- A peer that is not connected has no channel. -/
theorem ChannelsConnected.not_mem (h : s.ChannelsConnected) {peerId : PeerId}
    (notConnected : ∀ blob, s.app.stargazers.stateOf peerId ≠ some (.connected blob))
    {entry : PeerId × Channel} (mem : entry ∈ s.app.connectedChannels) : peerId ≠ entry.1 := by
  rintro rfl
  obtain ⟨blob, state, -⟩ := h entry mem
  exact notConnected blob state

/-- Handlers that connect nobody. -/
theorem ChannelsConnected.of_keepsLinks (h : s.ChannelsConnected) {e : AppEvent F Channel}
    (keeps : AppState.KeepsLinks s.app (s.app.step T solarMonth e)) :
    (s.step T solarMonth e).ChannelsConnected := by
  intro entry mem
  rw [step, keeps.channels] at mem
  exact (h entry mem).mono (exchanged_subset e) fun blob => (keeps.connected entry.1 blob).2

/-- Handlers that neither read nor write the two maps, but for channels they close. -/
theorem ChannelsConnected.of_stargazers (h : s.ChannelsConnected) {e : AppEvent F Channel}
    (stargazers : (s.app.step T solarMonth e).stargazers = s.app.stargazers)
    (channels : ∀ entry ∈ (s.app.step T solarMonth e).connectedChannels,
      entry ∈ s.app.connectedChannels) : (s.step T solarMonth e).ChannelsConnected := by
  intro entry mem
  refine (h entry (channels entry mem)).mono (exchanged_subset e) fun blob state => ?_
  rw [step, stargazers]
  exact state

theorem ChannelsConnected.removeStargazer (h : s.ChannelsConnected) (peerId : PeerId) :
    (s.step T solarMonth (.removeStargazer peerId)).ChannelsConnected := by
  have left : ∀ entry ∈ s.app.connectedChannels, peerId ≠ entry.1 →
      (s.step T solarMonth (.removeStargazer peerId)).Completed entry.1 entry.2 := by
    intro entry mem other
    refine (h entry mem).mono (exchanged_subset _) fun blob state => ?_
    rw [step, AppState.step, stargazers_removeStargazer, stateOf_erase, if_neg other]
    exact state
  intro entry mem
  have channels : entry ∈ (s.app.removeStargazer T peerId).connectedChannels := mem
  unfold AppState.removeStargazer at channels
  split at channels
  · next state => exact left entry channels (h.not_mem (by simp [state]) channels)
  · obtain ⟨stored, other⟩ := Table.mem_erase.1 channels
    exact left entry stored (Ne.symm other)
  · next notSought notConnected => exact left entry channels (h.not_mem notConnected channels)

/-- A channel and the state `connected` are written for a peer. -/
theorem ChannelsConnected.connect (h : s.ChannelsConnected) {s' : ExchangeState F Channel}
    (new : Exchanged F Channel) (exchanged : s.exchanged ⊆ s'.exchanged)
    (returned : new ∈ s'.exchanged)
    (channels : s'.app.connectedChannels =
      s.app.connectedChannels.upsert (new.peerId, new.channel))
    (states : ∀ other, s'.app.stargazers.stateOf other =
      if new.peerId = other then some (.connected new.theirBlob)
      else s.app.stargazers.stateOf other) : s'.ChannelsConnected := by
  intro entry mem
  rw [channels] at mem
  rcases Table.mem_upsert.1 mem with ⟨old, other⟩ | rfl
  · refine (h entry old).mono exchanged fun blob state => ?_
    rw [states, if_neg (Ne.symm other)]
    exact state
  · exact ⟨new.theirBlob, (states new.peerId).trans (if_pos rfl), returned⟩

/-- The channel of an accepted request is one of a connected peer exactly if the exchange over
it returned a blob. -/
theorem ChannelsConnected.acceptConsent (h : s.ChannelsConnected) {shown : PeerId}
    {order : List (Stargazer F Channel)} {reply : Option (ConsentBlob F)}
    (perm : order.Perm s.app.stargazers.rows) :
    (s.step T solarMonth (.acceptConsent shown order reply)).ChannelsConnected ↔
      s.app.Replies (.acceptConsent shown order reply) := by
  cases first : firstIncoming order with
  | none =>
    refine iff_of_true (h.of_keepsLinks ?_) (by simp [AppState.Replies, first])
    rw [AppState.step, acceptConsent_of_none first]
    exact ⟨fun _ _ => Iff.rfl, rfl, rfl, rfl⟩
  | some request =>
    obtain ⟨peerId, channel⟩ := request
    have pending := stateOf_firstIncoming perm first
    have state := stateOf_setState_incoming perm first
    cases birth : s.app.birth with
    | none =>
      refine iff_of_true (h.of_keepsLinks ?_) (by simp [AppState.Replies, birth])
      rw [AppState.step, acceptConsent_of_noBirth first birth]
      exact ⟨sameConnected_setState peerId .discovered (by simp [pending]) (by simp), rfl, rfl,
        rfl⟩
    | some ourBirth =>
      cases reply with
      | none =>
        refine iff_of_false (fun connected => ?_) (by simp [AppState.Replies, first, birth])
        unfold ChannelsConnected step at connected
        rw [AppState.step, acceptConsent_failed first birth] at connected
        obtain ⟨blob, found, -⟩ := connected (peerId, channel) (by simp)
        rw [state, if_pos rfl] at found
        cases found
      | some theirBlob =>
        refine iff_of_true (h.connect ⟨peerId, channel, theirBlob⟩ (exchanged_subset _) ?_ ?_ ?_)
          (by simp [Replies])
        · simp [step, AppState.exchanged, first, makeConsentBlob, birth]
        · rw [step, AppState.step, acceptConsent_replied theirBlob first birth]
        · intro other
          rw [step, AppState.step, acceptConsent_replied theirBlob first birth, state]

theorem ChannelsConnected.connectionComplete (h : s.ChannelsConnected) (reported : s.Reported)
    (i : ℕ) : (s.step T solarMonth (.connectionComplete i)).ChannelsConnected := by
  cases found : s.app.completions[i]? with
  | none =>
    refine h.of_keepsLinks ?_
    simp only [AppState.step, AppState.connectionComplete, found]
    exact ⟨fun _ _ => Iff.rfl, rfl, rfl, rfl⟩
  | some msg =>
    have returned := reported msg (List.mem_of_getElem? found)
    refine h.connect ⟨msg.peerId, msg.channel, msg.theirBlob⟩ (exchanged_subset _)
      (exchanged_subset _ returned) ?_ fun other => ?_
    · simp only [step, AppState.step, AppState.connectionComplete, found]
    · simp only [step, AppState.step, AppState.connectionComplete, found, AppState.connect]
      exact stateOf_setStateOrInsert ..

/-- A step leaves only connected peers with a channel exactly if the exchange it runs for the
user, if any, returns a blob. -/
theorem ChannelsConnected.step_iff (h : s.ChannelsConnected) (reported : s.Reported)
    {e : AppEvent F Channel} (enabled : s.app.Enabled e) :
    (s.step T solarMonth e).ChannelsConnected ↔ s.app.Replies e := by
  cases e with
  | acceptConsent shown order reply => exact h.acceptConsent enabled
  | removeStargazer p => exact iff_of_true (h.removeStargazer p) trivial
  | connectionComplete i => exact iff_of_true (h.connectionComplete reported i) trivial
  | peerChannelClosed p =>
    exact iff_of_true (h.of_stargazers rfl fun entry mem => (Table.mem_erase.1 mem).1) trivial
  | exchange i channel reply =>
    have same : (s.app.exchange i channel reply).stargazers = s.app.stargazers ∧
        (s.app.exchange i channel reply).connectedChannels = s.app.connectedChannels :=
      exchange_maps i channel reply
    exact iff_of_true (h.of_stargazers same.1 fun entry mem => same.2 ▸ mem) trivial
  | restart =>
    exact iff_of_true (fun entry mem => absurd mem (Table.not_mem_empty entry)) trivial
  | _ => exact iff_of_true (h.of_keepsLinks (keepsLinks_step enabled rfl)) trivial

theorem Reported.of_subset (h : s.Reported) {e : AppEvent F Channel}
    (kept : ∀ msg ∈ (s.app.step T solarMonth e).completions, msg ∈ s.app.completions) :
    (s.step T solarMonth e).Reported :=
  fun msg mem => exchanged_subset e (h msg (kept msg mem))

theorem Reported.exchange (h : s.Reported) (i : ℕ) (channel : Channel)
    (reply : Option (ConsentBlob F)) :
    (s.step T solarMonth (.exchange i channel reply)).Reported := by
  intro msg mem
  have completions : msg ∈ (s.app.exchange i channel reply).completions := mem
  unfold AppState.exchange at completions
  split at completions
  · next task theirBlob found =>
    rcases List.mem_append.1 completions with old | new
    · exact exchanged_subset _ (h msg old)
    · rw [List.mem_singleton.1 new]
      simp [step, AppState.exchanged, found]
  · exact exchanged_subset _ (h msg completions)

theorem Reported.step (h : s.Reported) {e : AppEvent F Channel} (enabled : s.app.Enabled e) :
    (s.step T solarMonth e).Reported := by
  cases e with
  | exchange i channel reply => exact h.exchange i channel reply
  | removeStargazer p =>
    refine h.of_subset fun msg mem => ?_
    rw [AppState.step, AppState.removeStargazer] at mem
    split at mem <;> exact mem
  | acceptConsent shown order reply =>
    refine h.of_subset fun msg mem => ?_
    rw [AppState.step, AppState.acceptConsent] at mem
    repeat' split at mem
    all_goals exact mem
  | connectionComplete i =>
    refine h.of_subset fun msg mem => ?_
    rw [AppState.step, AppState.connectionComplete] at mem
    split at mem
    · exact mem
    · exact List.mem_of_mem_eraseIdx mem
  | peerChannelClosed p => exact h.of_subset fun _ => id
  | restart => exact fun msg mem => absurd mem List.not_mem_nil
  | _ => exact h.of_subset fun _ mem => (keepsLinks_step enabled rfl).completions ▸ mem

end ExchangeState

/-! ## Runs -/

/-- After every event of a run, each peer with a channel is connected with a blob that it sent
over this channel, exactly if every exchange that the user's acceptance of a request started
returned a blob. -/
theorem channelsConnected_iff (T : FloatText F) (solarMonth : F → UInt8) (relayPk : Bytes32)
    (es : List (AppEvent F Channel))
    (run : Along (ExchangeState.step T solarMonth) (fun s e => s.app.Enabled e)
      (.fresh relayPk) es) :
    Always (ExchangeState.step T solarMonth) ExchangeState.ChannelsConnected (.fresh relayPk) es ↔
      Along (ExchangeState.step T solarMonth) (fun s e => s.app.Replies e) (.fresh relayPk) es := by
  have start : (ExchangeState.fresh relayPk : ExchangeState F Channel).ChannelsConnected :=
    fun entry mem => absurd mem (Table.not_mem_empty entry)
  have reported : (ExchangeState.fresh relayPk : ExchangeState F Channel).Reported :=
    fun msg mem => absurd mem List.not_mem_nil
  rw [Along.always_iff (fun s e h enabled => h.step enabled)
    (fun s e h enabled connected => connected.step_iff h enabled) reported run]
  exact and_iff_right start

/-- The exchange over the channel of peer 1 returns a blob. -/
theorem channelsConnected_replied :
    Always (ExchangeState.step decimalText fun _ => 1) ExchangeState.ChannelsConnected
      (.fresh (Vector.replicate 32 9))
      [.confirmBirth ⟨2448000, "u4pru"⟩, .incomingChannel (Vector.replicate 32 1) (),
        .acceptConsent (Vector.replicate 32 1) [requestOf 1] (some (blobOf 1))] := by
  refine (channelsConnected_iff _ _ _ _ ?_).2 ?_
  · exact ⟨trivial, trivial, List.Perm.refl _, trivial⟩
  · exact ⟨trivial, trivial, fun _ _ => rfl, trivial⟩

/-- It fails, and a peer that is only `Discovered` has a channel. -/
theorem channel_of_discovered :
    let es : List (AppEvent ℕ Unit) :=
      [.confirmBirth ⟨2448000, "u4pru"⟩, .incomingChannel (Vector.replicate 32 1) (),
        .acceptConsent (Vector.replicate 32 1) [requestOf 1] none]
    Along (ExchangeState.step decimalText fun _ => 1) (fun s e => s.app.Enabled e)
        (.fresh (Vector.replicate 32 9)) es ∧
      ¬ Always (ExchangeState.step decimalText fun _ => 1) ExchangeState.ChannelsConnected
        (.fresh (Vector.replicate 32 9)) es := by
  refine ⟨⟨trivial, trivial, List.Perm.refl _, trivial⟩, fun connected => ?_⟩
  obtain ⟨blob, state, -⟩ := connected.last (Vector.replicate 32 1, ()) (List.mem_singleton.2 rfl)
  cases state

end Zodia.App
