import Zodia.App.Calls
import Zodia.App.Presence
import Zodia.Lib.Slot

/-!
# Group audio

The call of everyone who has the editor of a key open, as `app/src/app.rs` starts it. A loop over
the present peers dispatches a pair call for each that is connected, six at most. Each pair call
starts an audio session and assigns it to the one field for it, which drops the session before.

## Main definitions

* `AudioModel` — the calls with all audio sessions that were started.
* `AudioModel.startEditorAudio` — the loop, and `AudioModel.groupAudio`, the calls it dispatches.
* `AudioModel.KeepsSessions` — what the calls promise.

## Main results

* `AudioModel.live_eq` — there is one live session at most.
* `AudioModel.keepsSessions_iff` — the promise is kept exactly if one peer at most is due.
-/

namespace Zodia.App

open Lib StargazerMap

variable {F Channel : Type}

/-! ## The field of the session -/

namespace CallModel

/-- What a handler assigns to `active_audio`, if it does. -/
def assigned (s : CallModel F Channel) : CallEvent F Channel → Option (Option Channel)
  | .app .restart => some none
  | .callStargazer peerId _ true => (s.channelOf peerId).map some
  | .acceptCall true =>
    match s.callState with
    | .ringing peerId _ => (s.channelOf peerId).map some
    | _ => none
  | .hangUp | .callRejected _ | .callHungUp _ => some none
  | _ => none

variable (T : FloatText F) (solarMonth : F → UInt8) (s : CallModel F Channel)

theorem activeAudio_step (e : CallEvent F Channel) :
    (s.step T solarMonth e).activeAudio = (s.assigned e).getD s.activeAudio := by
  cases e with
  | app e => cases e <;> rfl
  | callStargazer peerId sessionId started =>
    cases started <;> cases channel : s.channelOf peerId <;>
      simp [step, callStargazer, assigned, channel]
  | acceptCall started =>
    cases state : s.callState with
    | ringing peerId sessionId =>
      cases started <;> cases channel : s.channelOf peerId <;>
        simp [step, acceptCall, assigned, state, channel]
    | _ => cases started <;> simp [step, acceptCall, assigned, state]
  | _ => rfl

/-- A call leaves the channels as they are. -/
theorem channelOf_callStargazer (peerId : PeerId) (sessionId : Bytes32) (started : Bool) :
    (s.callStargazer peerId sessionId started).channelOf = s.channelOf := by
  have app : (s.callStargazer peerId sessionId started).app = s.app := by
    unfold callStargazer
    split <;> rfl
  funext other
  rw [channelOf, channelOf, app]

theorem activeAudio_callStargazer (peerId : PeerId) (sessionId : Bytes32) :
    (s.callStargazer peerId sessionId true).activeAudio =
      (s.channelOf peerId).or s.activeAudio := by
  cases channel : s.channelOf peerId <;> simp [callStargazer, channel]

end CallModel

/-- The calls, the audio sessions and who has which editor open. -/
structure AudioModel (F Channel : Type) where
  call : CallModel F Channel
  sessions : Slot Channel
  editorPresence : EditorPresence
  tracked : sessions.value = call.activeAudio

/-- The sessions after a handler. -/
def assignSession (sessions : Slot Channel) : Option (Option Channel) → Slot Channel
  | some session => sessions.assign session
  | none => sessions

theorem value_assignSession (sessions : Slot Channel) (assigned : Option (Option Channel)) :
    (assignSession sessions assigned).value = assigned.getD sessions.value := by
  cases assigned with
  | none => rfl
  | some session => exact sessions.value_assign session

/-- The cap on the pair calls of one editor. -/
def cap : ℕ := 6

/-- The loop over the present peers: whom it calls, with `started` calls already dispatched. -/
def dispatchCalls (stargazers : StargazerMap F Channel) (started : ℕ) :
    List Bytes32 → List PeerId
  | [] => []
  | peer :: present =>
    if cap ≤ started then []
    else
      match stargazers.stateOf peer with
      | some (.connected _) => peer :: dispatchCalls stargazers (started + 1) present
      | _ => dispatchCalls stargazers started present

namespace AudioModel

section Handlers

variable (T : FloatText F) (solarMonth : F → UInt8) (s : AudioModel F Channel)

theorem tracked_step (e : CallEvent F Channel) :
    (assignSession s.sessions (s.call.assigned e)).value =
      (s.call.step T solarMonth e).activeAudio := by
  rw [value_assignSession, s.tracked, CallModel.activeAudio_step]

def step (e : CallEvent F Channel) : AudioModel F Channel where
  call := s.call.step T solarMonth e
  sessions := assignSession s.sessions (s.call.assigned e)
  editorPresence :=
    match e with
    | .app .restart => Table.empty
    | _ => s.editorPresence
  tracked := s.tracked_step T solarMonth e

/-- Prune stale presence, and walk the peers that are left. The second component is the messages
that are dispatched: a `CallStargazer` for each of its peers. -/
def startEditorAudio (interpKey : String) (nowMicros : ℕ) : AudioModel F Channel × List PeerId :=
  let presence := pruneStalePresence s.editorPresence nowMicros
  let present := ((presence.find? interpKey).map fun entry =>
    entry.peers.rows.map Heartbeat.peer).getD []
  ({ s with editorPresence := presence }, dispatchCalls s.call.app.stargazers 0 present)

/-- `CallStargazer` for each of the peers; every audio session starts. -/
def calls (newSessionId : PeerId → Bytes32) (peers : List PeerId) : List (CallEvent F Channel) :=
  peers.map fun peerId => .callStargazer peerId (newSessionId peerId) true

/-- The application after `StartEditorAudio` and the calls that it dispatches. -/
def groupAudio (newSessionId : PeerId → Bytes32) (interpKey : String) (nowMicros : ℕ) :
    AudioModel F Channel :=
  let dispatched := s.startEditorAudio interpKey nowMicros
  exec (step T solarMonth) dispatched.1 (calls newSessionId dispatched.2)

end Handlers

/-! ## What the call promises -/

instance (timestamp nowMicros : ℕ) : Decidable (Fresh timestamp nowMicros) :=
  inferInstanceAs (Decidable (_ ≤ _))

section Spec

variable (s : AudioModel F Channel)

/-- The peers in the editor of a key whose heartbeat is as given. -/
def presentWith (heartbeat : ℕ → Bool) (interpKey : String) : List Bytes32 :=
  ((s.editorPresence.find? interpKey).map fun entry =>
    (entry.peers.rows.filter fun beat => heartbeat beat.lastSeen).map Heartbeat.peer).getD []

def isConnected (peer : Bytes32) : Bool :=
  (s.call.app.stargazers.find? peer).any fun s => s.connectedBlob.isSome

/-- The peers that a session is due with: present by a fresh heartbeat, connected, with a
channel. -/
def due (interpKey : String) (nowMicros : ℕ) : List Bytes32 :=
  (s.presentWith (fun t => decide (Fresh t nowMicros)) interpKey).filter fun peer =>
    s.isConnected peer && (s.call.channelOf peer).isSome

/-- The first connected peers whose heartbeat passes the cutoff. -/
def firstConnected (interpKey : String) (nowMicros : ℕ) : List Bytes32 :=
  ((s.presentWith (fun t => presenceCutoff nowMicros ≤ t) interpKey).filter s.isConnected).take cap

/-- An audio session is running already, or one of the first connected peers has a channel. -/
def Sounds (interpKey : String) (nowMicros : ℕ) : Prop :=
  s.call.activeAudio.isSome ∨
    ∃ peer ∈ s.firstConnected interpKey nowMicros, (s.call.channelOf peer).isSome

/-- There is a session with every peer that is due, up to the cap, and hanging up ends them. -/
structure KeepsSessions (T : FloatText F) (solarMonth : F → UInt8)
    (newSessionId : PeerId → Bytes32) (interpKey : String) (nowMicros : ℕ) : Prop where
  live : (s.groupAudio T solarMonth newSessionId interpKey nowMicros).sessions.live =
    min cap (s.due interpKey nowMicros).length
  ended : ((s.groupAudio T solarMonth newSessionId interpKey nowMicros).step T solarMonth
    .hangUp).sessions.live = 0

end Spec

/-! ## The dispatched calls -/

section Dispatch

variable {s : AudioModel F Channel}

theorem dispatchCalls_eq (started : ℕ) (present : List Bytes32) :
    dispatchCalls s.call.app.stargazers started present =
      (present.filter s.isConnected).take (cap - started) := by
  induction present generalizing started with
  | nil => simp [dispatchCalls]
  | cons peer present ih =>
    rw [dispatchCalls]
    split_ifs with full
    · rw [Nat.sub_eq_zero_of_le full, List.take_zero]
    · have left : cap - started = cap - (started + 1) + 1 := by omega
      cases found : s.call.app.stargazers.find? peer with
      | none => simp [isConnected, stateOf, found, ih]
      | some other =>
        cases state : other.state with
        | connected birth =>
          have called : s.isConnected peer = true := by
            simp [isConnected, found, Stargazer.connectedBlob, state]
          rw [List.filter_cons_of_pos called, left, List.take_succ_cons, ← ih]
          simp [stateOf, found, state]
        | _ => simp [isConnected, stateOf, found, Stargazer.connectedBlob, state, ih]

theorem startEditorAudio_snd (interpKey : String) (nowMicros : ℕ) :
    (s.startEditorAudio interpKey nowMicros).2 = s.firstConnected interpKey nowMicros := by
  have present : (((pruneStalePresence s.editorPresence nowMicros).find? interpKey).map fun entry =>
      entry.peers.rows.map Heartbeat.peer).getD [] =
      s.presentWith (fun t => presenceCutoff nowMicros ≤ t) interpKey := by
    rw [EditorPresence.find?_prune, presentWith]
    cases s.editorPresence.find? interpKey with
    | none => rfl
    | some entry =>
      rw [Option.map_some, Option.filter_some]
      split_ifs with some
      · rfl
      · have none : (entry.peers.rows.filter fun beat =>
            decide (presenceCutoff nowMicros ≤ beat.lastSeen)) = [] := by
          simpa [Table.filter] using some
        rw [Option.map_some, Option.getD_some, none]
        rfl
  rw [startEditorAudio, present, dispatchCalls_eq, firstConnected, Nat.sub_zero]

end Dispatch

/-! ## The sessions after the calls -/

section Sessions

variable (T : FloatText F) (solarMonth : F → UInt8) (newSessionId : PeerId → Bytes32)
  (s : AudioModel F Channel)

/-- There is one live session at most: the one in the field. -/
theorem live_eq : s.sessions.live = s.call.activeAudio.toList.length := by
  rw [s.sessions.live_eq, s.tracked]

/-- Each call replaces the session of the call before. -/
theorem activeAudio_calls (peers : List PeerId) :
    (exec (step T solarMonth) s (calls newSessionId peers)).call.activeAudio =
      (peers.filterMap s.call.channelOf).getLast?.or s.call.activeAudio := by
  induction peers generalizing s with
  | nil => rfl
  | cons peer peers ih =>
    have channels : (s.step T solarMonth
        (.callStargazer peer (newSessionId peer) true)).call.channelOf = s.call.channelOf :=
      s.call.channelOf_callStargazer peer (newSessionId peer) true
    have audio : (s.step T solarMonth
        (.callStargazer peer (newSessionId peer) true)).call.activeAudio =
        (s.call.channelOf peer).or s.call.activeAudio :=
      s.call.activeAudio_callStargazer peer (newSessionId peer)
    rw [calls, List.map_cons, exec_cons, ← calls, ih, channels, audio]
    cases channel : s.call.channelOf peer with
    | none => rw [List.filterMap_cons_none channel, Option.none_or]
    | some channel' =>
      rw [List.filterMap_cons_some channel, List.getLast?_cons]
      cases (peers.filterMap s.call.channelOf).getLast? <;> rfl

variable (interpKey : String) (nowMicros : ℕ)

theorem activeAudio_groupAudio :
    (s.groupAudio T solarMonth newSessionId interpKey nowMicros).call.activeAudio.isSome = true ↔
      s.Sounds interpKey nowMicros := by
  rw [groupAudio, startEditorAudio_snd, activeAudio_calls]
  have call : (s.startEditorAudio interpKey nowMicros).1.call = s.call := rfl
  rw [call, Option.isSome_or, Bool.or_eq_true, Sounds, or_comm]
  refine or_congr_right ?_
  rw [Option.isSome_iff_ne_none, Ne, List.getLast?_eq_none_iff, List.filterMap_eq_nil_iff]
  simp [Option.isSome_iff_ne_none]

/-- **Group audio.** Every session that is due runs exactly if one peer at most is due, and one
is when an audio session is running already or one of the first connected peers has a channel. -/
theorem keepsSessions_iff :
    s.KeepsSessions T solarMonth newSessionId interpKey nowMicros ↔
      (s.due interpKey nowMicros).length ≤ 1 ∧
        (s.due interpKey nowMicros ≠ [] ↔ s.Sounds interpKey nowMicros) := by
  have ended (s' : AudioModel F Channel) : (s'.step T solarMonth .hangUp).sessions.live = 0 := by
    rw [live_eq]
    rfl
  have sounds := s.activeAudio_groupAudio T solarMonth newSessionId interpKey nowMicros
  have live := (s.groupAudio T solarMonth newSessionId interpKey nowMicros).live_eq
  have keeps : s.KeepsSessions T solarMonth newSessionId interpKey nowMicros ↔
      (s.groupAudio T solarMonth newSessionId interpKey nowMicros).sessions.live =
        min cap (s.due interpKey nowMicros).length :=
    ⟨KeepsSessions.live, fun live => ⟨live, ended _⟩⟩
  rw [keeps, live, ← sounds, ← List.length_pos_iff, cap]
  cases (s.groupAudio T solarMonth newSessionId interpKey nowMicros).call.activeAudio with
  | none =>
    simp only [Option.toList_none, List.length_nil, Option.isSome_none, Bool.false_eq_true,
      iff_false]
    omega
  | some channel =>
    simp only [Option.toList_some, List.length_singleton, Option.isSome_some, iff_true]
    omega

end Sessions

/-- Two peers are connected, and both have just opened the editor of one key. -/
def pairInEditor : AudioModel ℕ ℕ where
  call :=
    { app :=
        { AppState.fresh (Vector.replicate 32 9) with
          stargazers := ([1, 2].map fun b : UInt8 =>
            { requestOf b with state := .connected (blobOf b) }).foldl Table.upsert Table.empty
          connectedChannels := ([(Vector.replicate 32 1, 1), (Vector.replicate 32 2, 2)] :
            List (PeerId × ℕ)).foldl Table.upsert Table.empty }
      callState := .idle
      activeAudio := none
      offered := none }
  sessions := Slot.empty
  editorPresence := ([1, 2].map fun b : UInt8 => Vector.replicate 32 b).foldl
    (fun map peer => editorPresenceChanged map "sun_in_aries" peer true (10 ^ 15)) Table.empty
  tracked := Slot.value_empty

/-- The session with the first peer is dropped. -/
theorem one_session_of_two :
    ¬ pairInEditor.KeepsSessions decimalText (fun _ => 1) (fun _ => Vector.replicate 32 7)
      "sun_in_aries" (10 ^ 15) := by
  rintro ⟨live, -⟩
  exact absurd live (by decide +kernel)

end AudioModel

end Zodia.App
