import Zodia.App.ConnectedChannels

/-!
# Calls

There is one call at a time, and the handlers for the actions of the user and for the events of
the peers replace its state and its audio session in statements of their own. An event names the
peer it comes from, and an offer or an acceptance its session, but no handler compares them with
the state.

## Main definitions

* `CallModel` — the application with the state of the call, the audio session and the last offer.
* `CallModel.step`, `CallModel.sends` — one event, and the messages its handler sends.
* `CallModel.Right` — what a step has to do to the call.
* `CallModel.Fits` — the events that the state of the call expects.
-/

namespace Zodia.App

open Lib

variable {F Channel : Type}

/-! ## The model -/

inductive CallState where
  | idle
  | calling (peerId : PeerId)
  | ringing (peerId : PeerId) (sessionId : Bytes32)
  | active (peerId : PeerId)
  deriving DecidableEq

def CallState.activePeer : CallState → Option PeerId
  | .calling peerId | .ringing peerId _ | .active peerId => some peerId
  | .idle => none

/-- Whether the user speaks, or waits for the peer to take the call. -/
def CallState.speaking : CallState → Bool
  | .calling _ | .active _ => true
  | .idle | .ringing .. => false

/-- The messages of a call. -/
inductive CallMsg where
  | callOffer (sessionId : Bytes32)
  | callAccept (sessionId : Bytes32)
  | callReject (sessionId : Bytes32)
  | callHangup (sessionId : Bytes32)
  deriving DecidableEq

/-- The application and its call. `activeAudio` is the channel that the audio session runs over.
The program keeps no record of the last offer it sent. -/
structure CallModel (F Channel : Type) where
  app : AppState F Channel
  callState : CallState
  activeAudio : Option Channel
  offered : Option (PeerId × Bytes32)

inductive CallEvent (F Channel : Type) where
  | app (e : AppEvent F Channel)
  /-- The user dials under a new session; `started` says if the audio session starts. -/
  | callStargazer (peerId : PeerId) (sessionId : Bytes32) (started : Bool)
  | acceptCall (started : Bool)
  | rejectCall
  | hangUp
  | callOffer (sender : PeerId) (sessionId : Bytes32)
  | callAccepted (sender : PeerId) (sessionId : Bytes32)
  | callRejected (sender : PeerId)
  | callHungUp (sender : PeerId)

/-- The peer a call event comes from. -/
def CallEvent.sender : CallEvent F Channel → Option PeerId
  | .callOffer sender _ | .callAccepted sender _ | .callRejected sender | .callHungUp sender =>
    some sender
  | _ => none

namespace CallModel

section Handlers

variable (s : CallModel F Channel)

/-- The channel registered for a peer. -/
def channelOf (peerId : PeerId) : Option Channel :=
  (s.app.connectedChannels.find? peerId).map Prod.snd

def callStargazer (peerId : PeerId) (sessionId : Bytes32) (started : Bool) : CallModel F Channel :=
  match s.channelOf peerId, started with
  | some channel, true =>
    { s with
      callState := .calling peerId
      activeAudio := some channel
      offered := some (peerId, sessionId) }
  | _, _ => s

def acceptCall (started : Bool) : CallModel F Channel :=
  match s.callState with
  | .ringing peerId _ =>
    match s.channelOf peerId, started with
    | some channel, true => { s with callState := .active peerId, activeAudio := some channel }
    | _, _ => s
  | _ => s

def rejectCall : CallModel F Channel := { s with callState := .idle }

/-- `HangUp`, and a rejection or a hang-up of a peer. -/
def endCall : CallModel F Channel := { s with callState := .idle, activeAudio := none }

def step (T : FloatText F) (solarMonth : F → UInt8) (s : CallModel F Channel) :
    CallEvent F Channel → CallModel F Channel
  | .app .restart => ⟨s.app.restart T solarMonth, .idle, none, none⟩
  | .app e => { s with app := s.app.step T solarMonth e }
  | .callStargazer peerId sessionId started => s.callStargazer peerId sessionId started
  | .acceptCall started => s.acceptCall started
  | .rejectCall => s.rejectCall
  | .hangUp => s.endCall
  | .callOffer sender sessionId => { s with callState := .ringing sender sessionId }
  | .callAccepted sender _ => { s with callState := .active sender }
  | .callRejected _ => s.endCall
  | .callHungUp _ => s.endCall

/-- The message to a peer, if it has a channel. -/
def message (peerId : PeerId) (msg : CallMsg) : Option (Channel × CallMsg) :=
  (s.channelOf peerId).map (·, msg)

/-- The message a handler sends, and the channel it goes over. -/
def sends : CallEvent F Channel → Option (Channel × CallMsg)
  | .callStargazer peerId sessionId true => s.message peerId (.callOffer sessionId)
  | .acceptCall true =>
    match s.callState with
    | .ringing peerId sessionId => s.message peerId (.callAccept sessionId)
    | _ => none
  | .rejectCall =>
    match s.callState with
    | .ringing peerId sessionId => s.message peerId (.callReject sessionId)
    | _ => none
  | .hangUp => s.callState.activePeer.bind (s.message · (.callHangup (Vector.replicate 32 0)))
  | _ => none

end Handlers

def fresh (relayPk : Bytes32) : CallModel F Channel := ⟨.fresh relayPk, .idle, none, none⟩

/-! ## What a step has to do -/

section Spec

variable (T : FloatText F) (solarMonth : F → UInt8) (s : CallModel F Channel)
  (e : CallEvent F Channel)

/-- The audio session runs while the user speaks. -/
def AudioMatches : Prop := s.activeAudio.isSome = s.callState.speaking

/-- No event of another peer changes a call. -/
def Undisturbed : Prop := ∀ sender peerId, e.sender = some sender →
  s.callState.activePeer = some peerId → sender ≠ peerId →
    (s.step T solarMonth e).callState = s.callState

/-- The session that was offered to the peer, or by it. -/
def Offered (peerId : PeerId) (sessionId : Bytes32) : Prop :=
  s.callState = .calling peerId ∧ s.offered = some (peerId, sessionId) ∨
    s.callState = .ringing peerId sessionId

/-- A call becomes active when its offer is answered, under the session of the offer. -/
def Answered : Prop := ∀ peerId, (s.step T solarMonth e).callState = .active peerId →
  s.callState = .active peerId ∨ ∃ sessionId, s.Offered peerId sessionId ∧
    ∀ other, e = .callAccepted peerId other → other = sessionId

structure Right : Prop where
  undisturbed : s.Undisturbed T solarMonth e
  answered : s.Answered T solarMonth e
  audio : (s.step T solarMonth e).AudioMatches

end Spec

/-- The event is one that the state of the call expects. -/
def Fits (s : CallModel F Channel) : CallEvent F Channel → Prop
  | .rejectCall => s.callState.speaking = false
  | .callOffer sender _ =>
    s.callState = .idle ∨ ∃ sessionId, s.callState = .ringing sender sessionId
  | .callAccepted sender sessionId =>
    s.callState = .active sender ∨
      s.callState = .calling sender ∧ s.offered = some (sender, sessionId)
  | .callRejected sender | .callHungUp sender =>
    s.callState = .idle ∨ s.callState.activePeer = some sender
  | _ => True

/-! ## Steps -/

variable {T : FloatText F} {solarMonth : F → UInt8} {s : CallModel F Channel}

/-- The last offer on record was sent to its peer. -/
theorem sent_of_offered {e : CallEvent F Channel} {peerId : PeerId} {sessionId : Bytes32}
    (offered : (s.step T solarMonth e).offered = some (peerId, sessionId)) :
    s.offered = some (peerId, sessionId) ∨
      ∃ channel, s.channelOf peerId = some channel ∧
        s.sends e = some (channel, .callOffer sessionId) := by
  cases e with
  | app e => cases e <;> first | exact .inl offered | cases offered
  | callStargazer dialled session started =>
    simp only [step, callStargazer] at offered
    split at offered
    · next channel found =>
      obtain ⟨rfl, rfl⟩ := Prod.mk.inj (Option.some.inj offered)
      exact .inr ⟨channel, found, by simp [sends, message, found]⟩
    · exact .inl offered
  | acceptCall started =>
    simp only [step, acceptCall] at offered
    repeat' split at offered
    all_goals exact .inl offered
  | _ => exact .inl offered

/-- A step that leaves the call as it is. -/
theorem right_of_same (audio : s.AudioMatches) {e : CallEvent F Channel}
    (state : (s.step T solarMonth e).callState = s.callState)
    (session : (s.step T solarMonth e).activeAudio = s.activeAudio) : s.Right T solarMonth e where
  undisturbed _ _ _ _ _ := state
  answered peerId active := .inl (state.symm.trans active)
  audio := by rw [AudioMatches, state, session]; exact audio

/-- A step of the user, or of the peer of the call, that leaves no call active. -/
theorem right_of_inactive {e : CallEvent F Channel}
    (sender : ∀ sender peerId, e.sender = some sender → s.callState.activePeer = some peerId →
      sender = peerId)
    (inactive : ∀ peerId, (s.step T solarMonth e).callState ≠ .active peerId)
    (audio : (s.step T solarMonth e).AudioMatches) : s.Right T solarMonth e where
  undisturbed from_ peerId hfrom hpeer other := absurd (sender from_ peerId hfrom hpeer) other
  answered peerId active := absurd active (inactive peerId)
  audio := audio

theorem right_callStargazer (audio : s.AudioMatches) (peerId : PeerId) (sessionId : Bytes32)
    (started : Bool) : s.Right T solarMonth (.callStargazer peerId sessionId started) := by
  cases channel : s.channelOf peerId with
  | none =>
    apply right_of_same audio <;> simp only [step, callStargazer, channel]
  | some channel =>
    cases started with
    | false => apply right_of_same audio <;> simp only [step, callStargazer, channel]
    | true =>
      apply right_of_inactive <;> simp [CallEvent.sender, step, callStargazer, AudioMatches,
        CallState.speaking, *]

theorem right_acceptCall (audio : s.AudioMatches) (started : Bool) :
    s.Right T solarMonth (.acceptCall started) := by
  cases state : s.callState with
  | ringing peerId sessionId =>
    cases channel : s.channelOf peerId with
    | none => apply right_of_same audio <;> simp only [step, acceptCall, state, channel]
    | some channel =>
      cases started with
      | false => apply right_of_same audio <;> simp only [step, acceptCall, state, channel]
      | true =>
        have after : (s.step T solarMonth (.acceptCall true)).callState = .active peerId := by
          simp only [step, acceptCall, state, channel]
        refine ⟨by simp [Undisturbed, CallEvent.sender], fun other active => ?_, ?_⟩
        · obtain rfl := CallState.active.inj (after.symm.trans active)
          exact .inr ⟨sessionId, .inr state, by simp⟩
        · simp [AudioMatches, step, acceptCall, state, channel, CallState.speaking]
  | _ => apply right_of_same audio <;> simp only [step, acceptCall, state]

theorem audioMatches_endCall : s.endCall.AudioMatches := rfl

theorem right_rejectCall_iff (audio : s.AudioMatches) :
    s.Right T solarMonth .rejectCall ↔ s.callState.speaking = false := by
  constructor
  · intro right
    exact audio.symm.trans right.audio
  · intro silent
    refine right_of_inactive (by simp [CallEvent.sender]) (by simp [step, rejectCall]) ?_
    exact audio.trans silent

/-- A peer ends the call exactly if it is its own. -/
theorem right_ended_iff {e : CallEvent F Channel} {sender : PeerId}
    (hsender : e.sender = some sender) (ends : s.step T solarMonth e = s.endCall) :
    s.Right T solarMonth e ↔ s.callState = .idle ∨ s.callState.activePeer = some sender := by
  constructor
  · intro right
    cases peer : s.callState.activePeer with
    | none => exact .inl (by cases state : s.callState <;> simp_all [CallState.activePeer])
    | some peerId =>
      by_cases same : sender = peerId
      · exact .inr (congrArg some same.symm)
      · have kept := right.undisturbed sender peerId hsender peer same
        rw [ends] at kept
        exact .inl kept.symm
  · intro fits
    refine right_of_inactive (fun from_ peerId hfrom hpeer => ?_) (by simp [ends, endCall]) ?_
    · rcases fits with idle | own
      · simp [idle, CallState.activePeer] at hpeer
      · exact Option.some.inj (hfrom.symm.trans (hsender.trans (own.symm.trans hpeer)))
    · rw [ends]
      exact audioMatches_endCall

theorem right_callOffer_iff (audio : s.AudioMatches) (sender : PeerId) (sessionId : Bytes32) :
    s.Right T solarMonth (.callOffer sender sessionId) ↔ s.Fits (.callOffer sender sessionId) := by
  constructor
  · intro right
    -- the audio session was not touched, so the state was one in which none runs
    have silent : s.callState.speaking = false := audio.symm.trans right.audio
    cases state : s.callState with
    | idle => exact .inl state
    | ringing peerId session =>
      by_cases same : sender = peerId
      · exact .inr ⟨session, same ▸ state⟩
      · have kept := right.undisturbed sender peerId rfl (by rw [state]; rfl) same
        rw [state] at kept
        exact absurd (CallState.ringing.inj kept).1 same
    | calling peerId => simp [state, CallState.speaking] at silent
    | active peerId => simp [state, CallState.speaking] at silent
  · intro fits
    refine right_of_inactive (fun from_ peerId hfrom hpeer => ?_) (by simp [step]) ?_
    · obtain rfl := Option.some.inj hfrom
      rcases fits with idle | ⟨session, ringing⟩
      · simp [idle, CallState.activePeer] at hpeer
      · simpa [ringing, CallState.activePeer] using hpeer
    · refine audio.trans ?_
      rcases fits with idle | ⟨session, ringing⟩
      · rw [idle]; rfl
      · rw [ringing]; rfl

theorem right_callAccepted_iff (audio : s.AudioMatches) (sender : PeerId) (sessionId : Bytes32) :
    s.Right T solarMonth (.callAccepted sender sessionId) ↔
      s.Fits (.callAccepted sender sessionId) := by
  constructor
  · intro right
    rcases right.answered sender rfl with active | ⟨session, offer, answers⟩
    · exact .inl active
    · obtain rfl := answers sessionId rfl
      rcases offer with calling | ringing
      · exact .inr calling
      · -- no audio session was started for a call that rings
        have silent := audio.symm.trans right.audio
        rw [ringing] at silent
        cases silent
  · rintro (active | ⟨calling, offered⟩)
    · exact right_of_same audio active.symm rfl
    · refine ⟨fun from_ peerId hfrom hpeer other => ?_, fun peerId active => ?_, ?_⟩
      · obtain rfl := Option.some.inj hfrom
        rw [calling] at hpeer
        exact absurd (Option.some.inj hpeer) other
      · obtain rfl := CallState.active.inj active
        exact .inr ⟨sessionId, .inl ⟨calling, offered⟩, by simp⟩
      · refine audio.trans ?_
        rw [calling]
        rfl

/-- A step is right exactly if its event fits the state. -/
theorem right_iff (audio : s.AudioMatches) (e : CallEvent F Channel) :
    s.Right T solarMonth e ↔ s.Fits e := by
  cases e with
  | app e =>
    refine iff_of_true ?_ trivial
    cases e with
    | restart => exact right_of_inactive (by simp [CallEvent.sender]) (by simp [step]) rfl
    | _ => exact right_of_same audio rfl rfl
  | callStargazer peerId sessionId started =>
    exact iff_of_true (right_callStargazer audio peerId sessionId started) trivial
  | acceptCall started => exact iff_of_true (right_acceptCall audio started) trivial
  | rejectCall => exact right_rejectCall_iff audio
  | hangUp =>
    exact iff_of_true (right_of_inactive (by simp [CallEvent.sender]) (by simp [step, endCall])
      audioMatches_endCall) trivial
  | callOffer sender sessionId => exact right_callOffer_iff audio sender sessionId
  | callAccepted sender sessionId => exact right_callAccepted_iff audio sender sessionId
  | callRejected sender => exact right_ended_iff rfl rfl
  | callHungUp sender => exact right_ended_iff rfl rfl

end CallModel

/-! ## Runs -/

/-- Every step of a run is right exactly if every event fits the state it comes in. -/
theorem calls_right_iff (T : FloatText F) (solarMonth : F → UInt8) (relayPk : Bytes32)
    (es : List (CallEvent F Channel)) :
    Along (CallModel.step T solarMonth) (CallModel.Right T solarMonth) (.fresh relayPk) es ↔
      Along (CallModel.step T solarMonth) CallModel.Fits (.fresh relayPk) es := by
  have start : (CallModel.fresh relayPk : CallModel F Channel).AudioMatches := rfl
  refine Along.congr_of_invariant (fun s e audio fits => ?_) (fun s e audio => ?_) start
  · exact ((CallModel.right_iff audio e).2 fits).audio
  · exact CallModel.right_iff audio e

/-- The peers 1 and 2 are connected, peer 1 calls, and peer 2 hangs up. -/
def strangerHangsUp : List (CallEvent ℕ Unit) :=
  (twoRequests.map .app) ++
    [.app (.acceptConsent (Vector.replicate 32 1) [requestOf 1, requestOf 2] (some (blobOf 1))),
      .app (.acceptConsent (Vector.replicate 32 2)
        [{ requestOf 1 with state := .connected (blobOf 1) }, requestOf 2] (some (blobOf 2))),
      .callOffer (Vector.replicate 32 1) (Vector.replicate 32 7),
      .callHungUp (Vector.replicate 32 2)]

/-- The call of peer 1 is over. -/
theorem stranger_ends_call :
    ¬ Along (CallModel.step decimalText fun _ => 1) (CallModel.Right decimalText fun _ => 1)
      (.fresh (Vector.replicate 32 9)) strangerHangsUp := by
  rintro ⟨-, -, -, -, -, -, -, right, -⟩
  have other : (Vector.replicate 32 2 : PeerId) ≠ Vector.replicate 32 1 := by decide
  exact absurd (right.undisturbed _ _ rfl rfl other) (by simp [CallModel.step, CallModel.endCall])

end Zodia.App
