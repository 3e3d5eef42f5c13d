import Zodia.Ops.Cbor
import Zodia.Pipeline.Stages

/-!
# From an encoded operation to its event

An operation body does not say which of the two families it belongs to, so it is tried as one
and then as the other. The plaintext of a circle takes the same two steps on a path of its own.
What an event tells is read back from it, so that nothing of an operation is lost or mistaken on
the way.

## Main definitions

* `StateEvent.interpOp?`, `StateEvent.docOp?` — the operation an event tells of.
* `StateEvent.Reports` — the event names the operation, its author and its time.
* `Yields` — what the stages make of an operation.
-/

namespace Zodia.Pipeline

open Lib Sync Ops

variable {Digest Args : Type}

/-! ## What an event tells -/

/-- The interpretation operation that an event tells of. -/
def StateEvent.interpOp? : StateEvent Digest → Option (InterpOp Digest)
  | .interpAuthored _ _ interpKey body => some (.author interpKey body)
  | .affirmAdded targetLogId _ => some (.affirm targetLogId)
  | .responseAdded _ _ parentLogId body => some (.respondTo parentLogId body)
  | .interpRevoked _ _ targetLogId => some (.revoke targetLogId)
  | .displayNameSet _ _ name _ => some (.setDisplayName name)
  | .circleInviteReceived _ _ circleId recipient => some (.circleInviteNotify circleId recipient)
  | .circleMemberJoined _ circleId _ => some (.circleJoinNotify circleId)
  | _ => none

/-- The document operation that an event tells of. -/
def StateEvent.docOp? : StateEvent Digest → Option (DocOp Digest)
  | .docEdited _ _ interpKey baseRev crdtUpdate affectedBlocks _ aiGenerated =>
    some (.edit interpKey baseRev crdtUpdate affectedBlocks aiGenerated)
  | .docVetoProposed _ _ interpKey targetEditOpId _ => some (.veto interpKey targetEditOpId)
  | .docAffirmed _ _ interpKey targetRev => some (.affirmRev interpKey targetRev)
  | .docAffirmRetracted _ _ interpKey targetRev => some (.retractAffirm interpKey targetRev)
  | .editorPresenceChanged _ _ interpKey joined _ => some (.editorPresence interpKey joined)
  | _ => none

/-- The operation that an event names; an affirmation names its target only. -/
def StateEvent.opId? : StateEvent Digest → Option Digest
  | .interpAuthored opId .. => some opId
  | .affirmAdded .. => none
  | .responseAdded opId .. => some opId
  | .interpRevoked opId .. => some opId
  | .displayNameSet opId .. => some opId
  | .circleInviteReceived opId .. => some opId
  | .circleMemberJoined opId .. => some opId
  | .docEdited opId .. => some opId
  | .docVetoProposed opId .. => some opId
  | .docAffirmed opId .. => some opId
  | .docAffirmRetracted opId .. => some opId
  | .editorPresenceChanged opId .. => some opId
  | .skipped _ => none

def StateEvent.author? : StateEvent Digest → Option Bytes32
  | .interpAuthored _ author .. => some author
  | .affirmAdded _ voter => some voter
  | .responseAdded _ author .. => some author
  | .interpRevoked _ by_ _ => some by_
  | .displayNameSet _ by_ .. => some by_
  | .circleInviteReceived _ inviter .. => some inviter
  | .circleMemberJoined _ _ member => some member
  | .docEdited _ by_ .. => some by_
  | .docVetoProposed _ by_ .. => some by_
  | .docAffirmed _ by_ .. => some by_
  | .docAffirmRetracted _ by_ .. => some by_
  | .editorPresenceChanged _ by_ .. => some by_
  | .skipped _ => none

/-- The time that an event carries; not every event does. -/
def StateEvent.timestamp? : StateEvent Digest → Option ℕ
  | .displayNameSet _ _ _ timestamp => some timestamp
  | .docEdited _ _ _ _ _ _ timestamp _ => some timestamp
  | .docVetoProposed _ _ _ _ timestamp => some timestamp
  | .editorPresenceChanged _ _ _ _ timestamp => some timestamp
  | _ => none

/-- The event is by the author of the operation, and names the operation and its time where it
names one. -/
structure StateEvent.Reports (event : StateEvent Digest) (opId : Digest) (author : Bytes32)
    (timestamp : ℕ) : Prop where
  author : event.author? = some author
  opId : ∀ id ∈ event.opId?, id = opId
  timestamp : ∀ t ∈ event.timestamp?, t = timestamp

section Materialize

variable {opId : Digest} {author : Bytes32} {timestamp : ℕ}

theorem interpOp?_materializeInterp (op : InterpOp Digest) :
    (materializeInterp opId author timestamp op).interpOp? = some op := by cases op <;> rfl

theorem docOp?_materializeDoc (op : DocOp Digest) :
    (materializeDoc opId author timestamp op).docOp? = some op := by cases op <;> rfl

theorem reports_materializeInterp (op : InterpOp Digest) :
    (materializeInterp opId author timestamp op).Reports opId author timestamp := by
  cases op <;> exact ⟨rfl, by simp [materializeInterp, StateEvent.opId?],
    by simp [materializeInterp, StateEvent.timestamp?]⟩

theorem reports_materializeDoc (op : DocOp Digest) :
    (materializeDoc opId author timestamp op).Reports opId author timestamp := by
  cases op <;> exact ⟨rfl, by simp [materializeDoc, StateEvent.opId?],
    by simp [materializeDoc, StateEvent.timestamp?]⟩

end Materialize

/-! ## The stages -/

/-- The decode stage returns `out` for the operation, the materialisation stage and the pipeline
as a whole return `event`, and so does the path of circle content for the same bytes, id, author
and time. -/
structure Yields (H : Hashes Digest Args) (C : Codec Digest) (op : Operation Digest Args)
    (bytes : Bytes) (timestamp : ℕ) (out : DecodeOutput Digest Args) (event : StateEvent Digest) :
    Prop where
  decoded : ((⟨[], []⟩ : DecodeProcessor Digest Args).process C op).next = some (out, ⟨[], []⟩)
  materialized : ((⟨[]⟩ : MaterializationProcessor Digest).process H out).bind
    MaterializationProcessor.next = some (event, ⟨[]⟩)
  pipeline : ZodiaPipeline.new.turn H C op = some (event, .new)
  circle : materializeCircleContent C (H.header op.header) op.header.verifyingKey timestamp bytes =
    event

section Stages

variable {H : Hashes Digest Args} {C : Codec Digest} {op : Operation Digest Args} {bytes : Bytes}
  {timestamp : ℕ}

theorem Yields.of_decode {out : DecodeOutput Digest Args} {event : StateEvent Digest}
    (decoded : decode C op = out) (materialized : materializeOutput H out = some event)
    (circle : materializeCircleContent C (H.header op.header) op.header.verifyingKey timestamp
      bytes = event) : Yields H C op bytes timestamp out event where
  decoded := by simp [DecodeProcessor.process, DecodeProcessor.next, decoded]
  materialized := by
    simp [MaterializationProcessor.process, MaterializationProcessor.next, materialized]
  pipeline := by
    rw [ZodiaPipeline.turn_new, materialize, decoded, materialized]
    rfl
  circle := circle

/-- Whatever the bytes are, the two paths agree on the event of an operation. -/
theorem materialize_eq_circleContent (interp : op.header.extensions = .interp timestamp)
    (body : op.body = some bytes) :
    materialize H C op = some (materializeCircleContent C (H.header op.header)
      op.header.verifyingKey timestamp bytes) := by
  rw [materialize, decode, body, materializeCircleContent]
  have time : op.header.extensions.timestamp = some timestamp := by rw [interp]; rfl
  dsimp only
  cases C.decodeInterp bytes with
  | ok interp => simp [materializeOutput, time]
  | error _ =>
    cases C.decodeDoc bytes with
    | ok doc => simp [materializeOutput, time]
    | error message => rfl

theorem Yields.interp (interp : op.header.extensions = .interp timestamp)
    (body : op.body = some bytes) {i : InterpOp Digest} (read : C.decodeInterp bytes = .ok i) :
    Yields H C op bytes timestamp (.decoded op i)
      (materializeInterp (H.header op.header) op.header.verifyingKey timestamp i) := by
  refine .of_decode ?_ ?_ ?_
  · simp [decode, body, read]
  · simp [materializeOutput, interp, ZodiaExtensions.timestamp]
  · simp [materializeCircleContent, read]

theorem Yields.doc (interp : op.header.extensions = .interp timestamp)
    (body : op.body = some bytes) {e : String} {d : DocOp Digest}
    (noInterp : C.decodeInterp bytes = .error e) (read : C.decodeDoc bytes = .ok d) :
    Yields H C op bytes timestamp (.decodedDoc op d)
      (materializeDoc (H.header op.header) op.header.verifyingKey timestamp d) := by
  refine .of_decode ?_ ?_ ?_
  · simp [decode, body, noInterp, read]
  · simp [materializeOutput, interp, ZodiaExtensions.timestamp]
  · simp [materializeCircleContent, noInterp, read]

end Stages

/-! ## Encoded operations -/

/-- The operation that carries the body `bytes`, by `author` at `timestamp`. -/
def carrier (hash : Digest) (header : Header Digest Args) (timestamp : ℕ) (bytes : Bytes) :
    Operation Digest Args := ⟨hash, { header with extensions := .interp timestamp }, some bytes⟩

/-- Every operation of either family is recovered from its encoding as what it was, and told to
the app with the id, the author and the time of its carrier; the path of circle content tells
the same, for these and for any other bytes. -/
theorem ops_round_trip (S : P2pandaSerde Digest) (describe : DecodeError → String)
    (H : Hashes Digest Args) (hash : Digest) (header : Header Digest Args) (timestamp : ℕ) :
    (∀ interp : InterpOp Digest, ∃ event,
      Yields H (cborCodec S describe) (carrier hash header timestamp (interp.encode S))
        (interp.encode S) timestamp
        (.decoded (carrier hash header timestamp (interp.encode S)) interp) event ∧
      event.interpOp? = some interp ∧
      event.Reports (H.header { header with extensions := .interp timestamp })
        header.verifyingKey timestamp) ∧
    (∀ doc : DocOp Digest, ∃ event,
      Yields H (cborCodec S describe) (carrier hash header timestamp (doc.encode S))
        (doc.encode S) timestamp
        (.decodedDoc (carrier hash header timestamp (doc.encode S)) doc) event ∧
      event.docOp? = some doc ∧
      event.Reports (H.header { header with extensions := .interp timestamp })
        header.verifyingKey timestamp) ∧
    ∀ bytes, materialize H (cborCodec S describe) (carrier hash header timestamp bytes) =
      some (materializeCircleContent (cborCodec S describe)
        (H.header { header with extensions := .interp timestamp }) header.verifyingKey timestamp
        bytes) := by
  refine ⟨fun interp => ?_, fun doc => ?_, fun bytes => materialize_eq_circleContent rfl rfl⟩
  · exact ⟨_, .interp rfl rfl (decodeInterp_encode interp), interpOp?_materializeInterp interp,
      reports_materializeInterp interp⟩
  · exact ⟨_, .doc rfl rfl (decodeInterp_docOp doc) (decodeDoc_encode doc),
      docOp?_materializeDoc doc, reports_materializeDoc doc⟩

/-- The bytes of a presence heartbeat, read back. -/
example : (DocOp.editorPresence "natal:x" true : DocOp Bytes32).encode byteStrings =
    [0xa1, 0x6e] ++ utf8 "EditorPresence" ++ [0xa2, 0x6a] ++ utf8 "interp_key" ++ [0x67] ++
      utf8 "natal:x" ++ [0x66] ++ utf8 "joined" ++ [0xf5] := by decide

end Zodia.Pipeline
