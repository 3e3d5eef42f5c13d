import Zodia.App.ExchangeSize
import Zodia.App.PeerRows
import Zodia.Lib.Run

/-!
# The direct channel

Messages between two peers over one connection: each is written in CBOR, framed with its length
and sent on a stream of its own. A listener on the other side reads one stream after another, and
ends at the first thing it cannot read.

## Main definitions

* `ChannelMsg.encode`, `ChannelMsg.decode` — the messages and their bytes.
* `frame`, `sendMsg`, `recvMsg` — one direction of a connection.
* `Link.step` — a sender, a listener and a connection that may close.

## Main results

* `ChannelMsg.decode_encode` — every message is read back.
* `Link.events_eq` — the listener reports what the sender was told it sent, in order.
-/

namespace Zodia.Net

open Lib Ops
open App (InterpEntry PeerId PeerStatus maxMsgBytes)

/-! ## Messages -/

/-- `Blob` is the type of a `ConsentBlob`. -/
inductive ChannelMsg (Blob : Type) where
  | consentHandshake (blob : Blob)
  | interpShare (entries : List InterpEntry)
  | statusUpdate (status : PeerStatus)
  | callOffer (sessionId : Bytes32)
  | callAccept (sessionId : Bytes32)
  | callReject (sessionId : Bytes32)
  | callHangup (sessionId : Bytes32)
  | chatMsg (text : String)
  | typingIndicator (active : Bool)
  | chatRead
  | relayMsg (dest : Bytes32) (payload : Bytes)
  deriving DecidableEq

variable {Blob : Type}

/-- A variant without fields is written as its name. -/
def peerStatus : FieldCodec PeerStatus 1 where
  toValue
    | .active => .text "Active"
    | .away => .text "Away"
  ofValue
    | .text name =>
      if name = "Active" then some .active else if name = "Away" then some .away else none
    | _ => none
  ofValue_toValue status := by cases status <;> rfl
  depth_toValue status := by cases status <;> simp [Value.depth]

namespace ChannelMsg

def variantName : ChannelMsg Blob → String
  | consentHandshake _ => "ConsentHandshake"
  | interpShare _ => "InterpShare"
  | statusUpdate _ => "StatusUpdate"
  | callOffer _ => "CallOffer"
  | callAccept _ => "CallAccept"
  | callReject _ => "CallReject"
  | callHangup _ => "CallHangup"
  | chatMsg _ => "ChatMsg"
  | typingIndicator _ => "TypingIndicator"
  | chatRead => "ChatRead"
  | relayMsg .. => "RelayMsg"

/-- A consent blob is not a field but the content of its variant. -/
def fields : ChannelMsg Blob → List (String × Value)
  | consentHandshake _ => []
  | interpShare entries => [("entries", InterpEntry.codec.list.toValue entries)]
  | statusUpdate status => [("status", peerStatus.toValue status)]
  | callOffer sessionId | callAccept sessionId | callReject sessionId | callHangup sessionId =>
    [("session_id", byteArray32.toValue sessionId)]
  | chatMsg body => [("text", text.toValue body)]
  | typingIndicator active => [("active", FieldCodec.bool.toValue active)]
  | chatRead => []
  | relayMsg dest payload =>
    [("dest", byteArray32.toValue dest), ("payload", byteVec.toValue payload)]

section Codec

-- How the fields of a consent blob are written.
variable (blobs : FieldCodec Blob 3)

def toValue : ChannelMsg Blob → Value
  | consentHandshake blob => .variant "ConsentHandshake" (blobs.toValue blob)
  | chatRead => .text "ChatRead"
  | msg => .variant msg.variantName (.record msg.fields)

def ofValue (v : Value) : Except DecodeError (ChannelMsg Blob) :=
  match v with
  | .text name => if name = "ChatRead" then .ok chatRead else .error (.unknownVariant name)
  | v =>
    match v.variant? with
    | none => .error .notAVariant
    | some ("ConsentHandshake", content) =>
      match blobs.ofValue content with
      | some blob => .ok (consentHandshake blob)
      | none => .error (.invalidType "ConsentHandshake")
    | some (name, content) => do
      let fields ← variantFields name content
      match name with
      | "InterpShare" => return interpShare (← getField InterpEntry.codec.list "entries" fields)
      | "StatusUpdate" => return statusUpdate (← getField peerStatus "status" fields)
      | "CallOffer" => return callOffer (← getField byteArray32 "session_id" fields)
      | "CallAccept" => return callAccept (← getField byteArray32 "session_id" fields)
      | "CallReject" => return callReject (← getField byteArray32 "session_id" fields)
      | "CallHangup" => return callHangup (← getField byteArray32 "session_id" fields)
      | "ChatMsg" => return chatMsg (← getField text "text" fields)
      | "TypingIndicator" => return typingIndicator (← getField .bool "active" fields)
      | "RelayMsg" =>
        return relayMsg (← getField byteArray32 "dest" fields) (← getField byteVec "payload" fields)
      | _ => .error (.unknownVariant name)

def encode (msg : ChannelMsg Blob) : Bytes := (msg.toValue blobs).write
def decode (bytes : Bytes) : Except DecodeError (ChannelMsg Blob) :=
  fromReader (ofValue blobs) bytes

theorem ofValue_toValue (msg : ChannelMsg Blob) : ofValue blobs (msg.toValue blobs) = .ok msg := by
  cases msg <;>
    simp [ofValue, toValue, variantName, fields, getField, getField?, Value.variant,
      Value.variant?, FieldCodec.ofValue_toValue]

theorem depth_fields (msg : ChannelMsg Blob) : ∀ f ∈ msg.fields, f.2.depth ≤ 4 := by
  have deeper : ∀ {α : Type} {d : ℕ} (c : FieldCodec α d) (a : α), d ≤ 4 →
      (c.toValue a).depth ≤ 4 := fun c a hd => (c.depth_toValue a).trans hd
  cases msg <;> simp [fields, deeper]

theorem depth_toValue (msg : ChannelMsg Blob) : (msg.toValue blobs).depth ≤ recursionLimit := by
  have nested : (Value.variant msg.variantName (.record msg.fields)).depth ≤ 4 + 2 :=
    Value.depth_variant_record (by decide) msg.depth_fields
  have limit : 4 + 2 ≤ recursionLimit := by decide
  cases msg with
  | chatRead => simp [toValue, Value.depth, recursionLimit]
  | consentHandshake blob =>
    have content := blobs.depth_toValue blob
    simp only [toValue, Value.variant, Value.depth, Value.depthEntries]
    omega
  | _ => exact nested.trans limit

/-- Every message is read back. -/
theorem decode_encode (msg : ChannelMsg Blob) : decode blobs (msg.encode blobs) = .ok msg :=
  (fromReader_write (msg.depth_toValue blobs)).trans (msg.ofValue_toValue blobs)

end Codec

end ChannelMsg

/-! ## Frames -/

inductive ChannelError where
  | send
  | recv
  | decode (e : DecodeError)
  | tooLarge (len : ℕ)
  deriving DecidableEq

/-- The length, as four bytes with the most significant one first, and the payload. -/
def frame (bytes : Bytes) : Bytes := Value.bigEndian 4 bytes.length ++ bytes

/-- Read exactly that many bytes of a stream. -/
def readExact (n : ℕ) (stream : Bytes) : Except ChannelError (Bytes × Bytes) :=
  match Value.slice n stream with
  | some parts => .ok parts
  | none => .error .recv

/-- The number that four bytes stand for. -/
def fromBeBytes (bytes : Bytes) : ℕ := ((Value.readBigEndian 4 bytes).map Prod.fst).getD 0

/-- Receive a frame; what a stream holds after it is dropped with the stream. -/
def recvRaw (stream : Bytes) : Except ChannelError Bytes := do
  let (lenBuf, rest) ← readExact 4 stream
  let len := fromBeBytes lenBuf
  if maxMsgBytes < len then .error (.tooLarge len)
  else
    let (buf, _) ← readExact len rest
    return buf

def recvMsg (blobs : FieldCodec Blob 3) (stream : Bytes) :
    Except ChannelError (ChannelMsg Blob) := do
  let bytes ← recvRaw stream
  match ChannelMsg.decode blobs bytes with
  | .ok msg => .ok msg
  | .error e => .error (.decode e)

/-- Small enough to be sent. -/
def ChannelMsg.Fits (blobs : FieldCodec Blob 3) (msg : ChannelMsg Blob) : Prop :=
  (msg.encode blobs).length ≤ maxMsgBytes

instance (blobs : FieldCodec Blob 3) (msg : ChannelMsg Blob) : Decidable (msg.Fits blobs) :=
  inferInstanceAs (Decidable (_ ≤ _))

theorem readExact_append {n : ℕ} {first : Bytes} (h : first.length = n) (rest : Bytes) :
    readExact n (first ++ rest) = .ok (first, rest) := by
  subst h
  rw [readExact, Value.slice_append]

/-- A frame is read back, whatever follows it on its stream. -/
theorem recvRaw_frame {bytes : Bytes} (fits : bytes.length ≤ maxMsgBytes) (rest : Bytes) :
    recvRaw (frame bytes ++ rest) = .ok bytes := by
  have small : bytes.length < 256 ^ 4 := by
    rw [maxMsgBytes] at fits
    omega
  have len : fromBeBytes (Value.bigEndian 4 bytes.length) = bytes.length := by
    have whole := Value.readBigEndian_bigEndian 4 small []
    rw [List.append_nil] at whole
    rw [fromBeBytes, whole]
    rfl
  have header := readExact_append (Value.length_bigEndian 4 bytes.length) (bytes ++ rest)
  have payload := readExact_append (rfl : bytes.length = bytes.length) rest
  rw [recvRaw, frame, List.append_assoc, header, ok_bind]
  dsimp only
  rw [len, if_neg (not_lt.2 fits), payload, ok_bind]
  rfl

theorem recvMsg_frame {blobs : FieldCodec Blob 3} {msg : ChannelMsg Blob}
    (fits : msg.Fits blobs) : recvMsg blobs (frame (msg.encode blobs)) = .ok msg := by
  have whole := recvRaw_frame fits []
  rw [List.append_nil] at whole
  rw [recvMsg, whole, ok_bind, ChannelMsg.decode_encode]

/-! ## Sizes -/

/-- How many bytes a message with these fields takes. -/
theorem size_variant_record (name : String) (fields : List (String × Value)) :
    (Value.variant name (.record fields)).size =
      1 + Value.textSize name + Value.headSize fields.length +
        (fields.map fun f => Value.textSize f.1 + f.2.size).sum := by
  have entries : ∀ fields : List (String × Value),
      Value.sizeEntries (fields.map fun f => (Value.text f.1, f.2)) =
        (fields.map fun f => Value.textSize f.1 + f.2.size).sum := by
    intro fields
    induction fields with
    | nil => rfl
    | cons f fields ih => simp [Value.sizeEntries, Value.size, ih]
  have one : Value.headSize 1 = 1 := rfl
  simp only [Value.variant, Value.record, Value.size, Value.sizeEntries, entries,
    List.length_map, List.length_cons, List.length_nil, one]
  omega

/-- A byte is written as a number of one or two bytes. -/
theorem numbersSize_le (bytes : Bytes) :
    App.numbersSize bytes ≤ Value.headSize bytes.length + 2 * bytes.length := by
  have each : ∀ b : UInt8, Value.headSize b.toNat ≤ 2 := by
    intro b
    have small := b.toNat_lt
    unfold Value.headSize
    split_ifs <;> omega
  have total : (bytes.map fun b => Value.headSize b.toNat).sum ≤ 2 * bytes.length := by
    induction bytes with
    | nil => exact Nat.le_refl 0
    | cons b bytes ih =>
      have first := each b
      rw [List.map_cons, List.sum_cons, List.length_cons]
      omega
  exact Nat.add_le_add_left total _

/-- Only chats, relay payloads, shares and consents can be too large to be sent. -/
theorem ChannelMsg.fits_iff (blobs : FieldCodec Blob 3) (msg : ChannelMsg Blob) :
    msg.Fits blobs ↔
      match msg with
      | consentHandshake blob => 18 + (blobs.toValue blob).size ≤ maxMsgBytes
      | chatMsg text => (utf8 text).length ≤ 1048556
      | relayMsg dest payload =>
        24 + App.numbersSize dest.toList + App.numbersSize payload ≤ maxMsgBytes
      | interpShare entries =>
        App.shareSize entries.length (entries.map (·.size)).sum ≤ maxMsgBytes
      | _ => True := by
  have numbers (v : Bytes32) : (byteArray32.toValue v).size = App.numbersSize v.toList :=
    App.size_numbers v.toList
  have small (v : Bytes32) : App.numbersSize v.toList ≤ 66 := by
    have bound := numbersSize_le v.toList
    rw [Vector.length_toList] at bound
    exact bound
  have one : Value.headSize 1 = 1 := rfl
  have two : Value.headSize 2 = 1 := rfl
  have call (name : String) (named : Value.textSize name ≤ 12) (v : Bytes32) :
      (Value.variant name (.record [("session_id", byteArray32.toValue v)])).write.length ≤
        maxMsgBytes := by
    have field : Value.textSize "session_id" = 11 := by decide
    have bound := small v
    simp only [Value.length_write, size_variant_record, List.map_cons, List.map_nil, numbers,
      field, List.sum_cons, List.sum_nil, List.length_cons, List.length_nil, Nat.zero_add, one]
    rw [maxMsgBytes]
    omega
  cases msg with
  | consentHandshake blob =>
    have name : Value.textSize "ConsentHandshake" = 17 := by decide
    simp only [Fits, encode, toValue, Value.length_write, Value.variant, Value.size,
      Value.sizeEntries, List.length_singleton, one, name]
    omega
  | chatMsg body =>
    have names : Value.textSize "ChatMsg" = 8 ∧ Value.textSize "text" = 5 := by decide
    have text : Value.textSize body =
      Value.headSize (utf8 body).length + (utf8 body).length := rfl
    simp only [Fits, encode, toValue, Value.length_write, variantName, fields,
      size_variant_record, List.map_cons, List.map_nil, names, List.sum_cons, List.sum_nil,
      List.length_cons, List.length_nil, Nat.zero_add, one, FieldCodec.string, Value.size]
    rw [text, Value.headSize, maxMsgBytes]
    split_ifs <;> omega
  | relayMsg dest payload =>
    have names : Value.textSize "RelayMsg" = 9 ∧ Value.textSize "dest" = 5 ∧
      Value.textSize "payload" = 8 := by decide
    simp only [Fits, encode, toValue, Value.length_write, variantName, fields,
      size_variant_record, List.map_cons, List.map_nil, names, List.sum_cons, List.sum_nil,
      List.length_cons, List.length_nil, Nat.zero_add, Nat.reduceAdd, two, numbers,
      App.size_numbers]
    omega
  | interpShare entries =>
    change (App.encodeShare entries).length ≤ maxMsgBytes ↔ App.shareSize _ _ ≤ maxMsgBytes
    rw [App.length_encodeShare]
  | callOffer v => exact iff_true_intro (call "CallOffer" (by decide) v)
  | callAccept v => exact iff_true_intro (call "CallAccept" (by decide) v)
  | callReject v => exact iff_true_intro (call "CallReject" (by decide) v)
  | callHangup v => exact iff_true_intro (call "CallHangup" (by decide) v)
  | statusUpdate status =>
    refine iff_true_intro ?_
    change (Value.variant "StatusUpdate"
      (.record [("status", peerStatus.toValue status)])).write.length ≤ maxMsgBytes
    cases status <;> decide
  | typingIndicator active =>
    refine iff_true_intro ?_
    change (Value.variant "TypingIndicator"
      (.record [("active", .bool active)])).write.length ≤ maxMsgBytes
    cases active <;> decide
  | chatRead =>
    refine iff_true_intro ?_
    change (Value.text "ChatRead").write.length ≤ maxMsgBytes
    decide

/-! ## Runs -/

/-- What a listener tells the application about its peer. -/
inductive ZodiaNetEvent where
  | callOffer (sessionId : Bytes32)
  | callAccepted (sessionId : Bytes32)
  | callRejected
  | callHungUp
  | chatReceived (text : String)
  | peerStatusChanged (status : PeerStatus)
  | typingIndicatorChanged (active : Bool)
  | chatSeen
  | peerChannelClosed
  | relayReceived (dest : Bytes32) (payload : Bytes)
  | interpReceived (entries : List InterpEntry)
  deriving DecidableEq

/-- What the listener makes of a message; a consent is read at connect time. -/
def ChannelMsg.netEvent : ChannelMsg Blob → Option ZodiaNetEvent
  | callOffer sessionId => some (.callOffer sessionId)
  | callAccept sessionId => some (.callAccepted sessionId)
  | callReject _ => some .callRejected
  | callHangup _ => some .callHungUp
  | chatMsg text => some (.chatReceived text)
  | statusUpdate status => some (.peerStatusChanged status)
  | typingIndicator active => some (.typingIndicatorChanged active)
  | chatRead => some .chatSeen
  | relayMsg dest payload => some (.relayReceived dest payload)
  | interpShare entries => some (.interpReceived entries)
  | consentHandshake _ => none

theorem ChannelMsg.filterMap_netEvent_singleton (msg : ChannelMsg Blob) :
    [msg].filterMap netEvent = msg.netEvent.toList := by
  cases msg <;> rfl

/-- One direction of a connection: the streams that the listener has not accepted yet, oldest
first, what `send_msg` returned, and what the listener has reported. -/
structure Link (Blob : Type) where
  streams : List Bytes
  closed : Bool
  results : List (ChannelMsg Blob × Except ChannelError Unit)
  listening : Bool
  events : List ZodiaNetEvent

/-- `arrived` tells whether the next stream came through before the connection closed. -/
inductive LinkEvent (Blob : Type) where
  | sendMsg (msg : ChannelMsg Blob)
  | close
  | listen (arrived : Bool)

namespace Link

def opened : Link Blob := ⟨[], false, [], true, []⟩

variable (blobs : FieldCodec Blob 3) (l : Link Blob)

def sendMsg (msg : ChannelMsg Blob) : Link Blob :=
  let bytes := msg.encode blobs
  if maxMsgBytes < bytes.length then
    { l with results := l.results ++ [(msg, .error (.tooLarge (bytes.length % 2 ^ 32)))] }
  else if l.closed then { l with results := l.results ++ [(msg, .error .send)] }
  else { l with streams := l.streams ++ [frame bytes], results := l.results ++ [(msg, .ok ())] }

/-- The listener ends, and tells that the channel is closed. -/
def hangUp : Link Blob := { l with listening := false, events := l.events ++ [.peerChannelClosed] }

/-- One round of the loop of `spawn_channel_listener`. -/
def listen (arrived : Bool) : Link Blob :=
  if !l.listening then l
  else
    match l.streams with
    | [] => if l.closed then l.hangUp else l
    | stream :: rest =>
      if l.closed && !arrived then l.hangUp
      else
        match recvMsg blobs stream with
        | .ok msg => { l with streams := rest, events := l.events ++ msg.netEvent.toList }
        | .error _ => { l.hangUp with streams := rest }

def step : LinkEvent Blob → Link Blob
  | .sendMsg msg => l.sendMsg blobs msg
  | .close => { l with closed := true }
  | .listen arrived => l.listen blobs arrived

/-- The messages that `send_msg` accepted. -/
def taken : List (ChannelMsg Blob) :=
  l.results.filterMap fun r =>
    match r.2 with
    | .ok () => some r.1
    | .error _ => none

/-- The close event, if the listener has ended. -/
def ending : List ZodiaNetEvent := if l.listening then [] else [.peerChannelClosed]

/-- What the call for a message may have returned by now. -/
def Returned (msg : ChannelMsg Blob) : Except ChannelError Unit → Prop
  | .ok () => msg.Fits blobs
  | .error .send => msg.Fits blobs ∧ l.closed = true
  | .error (.tooLarge len) => ¬ msg.Fits blobs ∧ len = (msg.encode blobs).length % 2 ^ 32
  | .error _ => False

/-- Some of the accepted messages have been reported, and the others are on their streams. -/
structure Carries (got pending : List (ChannelMsg Blob)) : Prop where
  taken : l.taken = got ++ pending
  streams : l.streams = pending.map fun msg => frame (msg.encode blobs)
  fits : ∀ msg ∈ pending, msg.Fits blobs
  events : l.events = got.filterMap ChannelMsg.netEvent ++ l.ending
  ended : l.listening = false → l.closed = true
  returned : ∀ r ∈ l.results, l.Returned blobs r.1 r.2

variable {blobs l} {got pending : List (ChannelMsg Blob)}

theorem opened_carries : opened.Carries blobs [] [] :=
  ⟨rfl, rfl, by simp, rfl, by simp [opened], by simp [opened]⟩

/-- A message that the channel does not take is only noted. -/
theorem Carries.noted (h : l.Carries blobs got pending) {msg : ChannelMsg Blob} {e : ChannelError}
    (refused : l.Returned blobs msg (.error e)) :
    ({ l with results := l.results ++ [(msg, .error e)] } : Link Blob).Carries blobs got
      pending := by
  refine ⟨?_, h.streams, h.fits, h.events, h.ended, ?_⟩
  · rw [← h.taken]
    simp [Link.taken]
  · intro r mem
    rcases List.mem_append.1 mem with old | new
    · exact h.returned r old
    · obtain rfl := List.mem_singleton.1 new
      exact refused

theorem Carries.sendMsg (h : l.Carries blobs got pending) (msg : ChannelMsg Blob) :
    ∃ pending', (l.sendMsg blobs msg).Carries blobs got pending' := by
  unfold Link.sendMsg
  dsimp only
  split_ifs with large closed
  · have refused : l.Returned blobs msg (.error (.tooLarge ((msg.encode blobs).length % 2 ^ 32))) :=
      ⟨not_le.2 large, rfl⟩
    exact ⟨pending, h.noted refused⟩
  · have refused : l.Returned blobs msg (.error .send) := ⟨not_lt.1 large, closed⟩
    exact ⟨pending, h.noted refused⟩
  · refine ⟨pending ++ [msg], ?_, ?_, ?_, h.events, h.ended, ?_⟩
    · have taken := h.taken
      simp only [Link.taken] at taken
      simp [Link.taken, taken]
    · simp [h.streams]
    · intro m mem
      rcases List.mem_append.1 mem with old | new
      · exact h.fits m old
      · obtain rfl := List.mem_singleton.1 new
        exact not_lt.1 large
    · intro r mem
      rcases List.mem_append.1 mem with old | new
      · exact h.returned r old
      · obtain rfl := List.mem_singleton.1 new
        exact not_lt.1 large

theorem Carries.close (h : l.Carries blobs got pending) :
    ({ l with closed := true } : Link Blob).Carries blobs got pending := by
  refine ⟨h.taken, h.streams, h.fits, h.events, fun _ => rfl, fun r mem => ?_⟩
  have now := h.returned r mem
  cases result : r.2 with
  | ok u => simpa [Returned, result] using now
  | error e => cases e <;> simp_all [Returned]

theorem Carries.hangUp (h : l.Carries blobs got pending) (listening : l.listening = true)
    (closed : l.closed = true) : l.hangUp.Carries blobs got pending := by
  refine ⟨h.taken, h.streams, h.fits, ?_, fun _ => closed, h.returned⟩
  have events := h.events
  rw [ending, listening, if_pos rfl, List.append_nil] at events
  simp [Link.hangUp, ending, events]

/-- One round of the listener: it goes on to the next message, ends with the connection, or has
nothing to do. -/
theorem Carries.listen (h : l.Carries blobs got pending) (arrived : Bool) :
    ∃ got' pending', (l.listen blobs arrived).Carries blobs got' pending' := by
  unfold Link.listen
  cases listening : l.listening with
  | false => exact ⟨got, pending, h⟩
  | true =>
    cases pending with
    | nil =>
      simp only [h.streams, List.map_nil, Bool.not_true, Bool.false_eq_true, if_false]
      split_ifs with closed
      · exact ⟨got, [], h.hangUp listening closed⟩
      · exact ⟨got, [], h⟩
    | cons msg pending =>
      simp only [h.streams, List.map_cons, Bool.not_true, Bool.false_eq_true, if_false,
        recvMsg_frame (h.fits msg List.mem_cons_self)]
      split_ifs with closed
      · exact ⟨got, msg :: pending, h.hangUp listening (Bool.and_eq_true_iff.1 closed).1⟩
      · have events := h.events
        rw [ending, listening, if_pos rfl, List.append_nil] at events
        refine ⟨got ++ [msg], pending, ⟨?_, rfl, fun m mem =>
          h.fits m (List.mem_cons_of_mem _ mem), ?_, by simp, h.returned⟩⟩
        · exact h.taken.trans (by simp)
        · simp [ending, events, ChannelMsg.filterMap_netEvent_singleton]

theorem Carries.step (h : l.Carries blobs got pending) (e : LinkEvent Blob) :
    ∃ got' pending', (l.step blobs e).Carries blobs got' pending' := by
  cases e with
  | sendMsg msg => exact ⟨got, h.sendMsg msg⟩
  | close => exact ⟨got, pending, h.close⟩
  | listen arrived => exact h.listen arrived

theorem exec_carries (es : List (LinkEvent Blob)) :
    ∃ got pending, (exec (step blobs) opened es).Carries blobs got pending :=
  exec_keeps (fun l => ∃ got pending, Carries blobs l got pending)
    (fun _ e ⟨_, _, h⟩ => h.step e) ⟨[], [], opened_carries⟩ es

/-- On an open connection the listener gets to everything that was sent. -/
theorem Carries.drain (h : l.Carries blobs got pending) (open_ : l.closed = false)
    (arrived : Bool) :
    (exec (Link.step blobs) l (List.replicate pending.length (.listen arrived))).events =
      (got ++ pending).filterMap ChannelMsg.netEvent := by
  have listening : l.listening = true := by
    by_contra ended
    have closed := h.ended (Bool.not_eq_true _ ▸ ended)
    exact absurd closed (by simp [open_])
  induction pending generalizing l got with
  | nil => simpa [ending, listening] using h.events
  | cons msg pending ih =>
    have next : l.listen blobs arrived =
        { l with
          streams := pending.map fun msg => frame (msg.encode blobs)
          events := l.events ++ msg.netEvent.toList } := by
      unfold Link.listen
      simp only [h.streams, List.map_cons, listening, open_, Bool.not_true, Bool.false_eq_true,
        if_false, Bool.false_and, recvMsg_frame (h.fits msg List.mem_cons_self)]
    have events := h.events
    rw [ending, listening, if_pos rfl, List.append_nil] at events
    have after : (l.listen blobs arrived).Carries blobs (got ++ [msg]) pending := by
      rw [next]
      refine ⟨h.taken.trans (by simp), rfl, fun m mem => h.fits m (List.mem_cons_of_mem _ mem),
        ?_, by simp [listening], h.returned⟩
      simp [ending, listening, events, ChannelMsg.filterMap_netEvent_singleton]
    rw [List.length_cons, List.replicate_succ, exec_cons]
    have rest := ih after (by rw [next]; exact open_) (by rw [next]; exact listening)
    rw [List.append_assoc] at rest
    exact rest

/-- In every run of a sender, a listener and a connection that may close at any time, the
listener reports the messages that `send_msg` accepted, in the order they were sent, each once
and with what was sent, and passes over the consents among them; it stops at some of them only when
the connection closed, and reports that once. What `send_msg` refuses while the connection is open
is what is larger than 1 MiB. As long as it is open the listener gets to everything that was
accepted. -/
theorem events_eq (es : List (LinkEvent Blob)) :
    ∃ got pending, (exec (step blobs) opened es).taken = got ++ pending ∧
      (exec (step blobs) opened es).events =
        got.filterMap ChannelMsg.netEvent ++ (exec (step blobs) opened es).ending ∧
      ((exec (step blobs) opened es).closed = false →
        (exec (step blobs) opened es).listening = true ∧
        (∀ r ∈ (exec (step blobs) opened es).results, r.2 = .ok () ↔ r.1.Fits blobs) ∧
        ∀ arrived, (exec (step blobs) (exec (step blobs) opened es)
          (List.replicate pending.length (.listen arrived))).events =
            (got ++ pending).filterMap ChannelMsg.netEvent) := by
  obtain ⟨got, pending, h⟩ := exec_carries es
  refine ⟨got, pending, h.taken, h.events, fun open_ => ⟨?_, ?_, h.drain open_⟩⟩
  · by_contra ended
    have closed := h.ended (Bool.not_eq_true _ ▸ ended)
    exact absurd closed (by simp [open_])
  · intro r mem
    have returned := h.returned r mem
    cases result : r.2 with
    | ok u => simpa [Returned, result] using returned
    | error e => cases e <;> simp_all [Returned]

end Link

end Zodia.Net
