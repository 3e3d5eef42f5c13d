import Zodia.Ops.Operations
import Zodia.Sync.Node

/-!
# The inbound pipeline

The stages that turn a received operation into a state event. The decode stage tries the
interpretation family first, then the document family; the materialisation stage names the
event by the hash and the author of the operation. Both keep their outputs in a vector and
return the last one. The run loop feeds one operation and takes one event, so the stages are
drained between two turns.

## Main definitions

* `StateEvent` — what the app is told.
* `DecodeProcessor`, `MaterializationProcessor`, `ZodiaPipeline` — the stages and the whole.
* `materialize` — the event of an operation.
* `ZodiaPipeline.turn_new` — a drained pipeline returns the event of the operation it is fed.
-/

namespace Zodia.Pipeline

open Lib Sync Ops

variable {Digest Args : Type}

inductive SkipReason where
  | noBody
  | malformedOp (message : String)
  deriving DecidableEq

/-- The consequence of an operation, as the app is told. -/
inductive StateEvent (Digest : Type) where
  | interpAuthored (opId : Digest) (author : Bytes32) (interpKey body : String)
  | affirmAdded (targetLogId : Digest) (voter : Bytes32)
  | responseAdded (opId : Digest) (author : Bytes32) (parentLogId : Digest) (body : String)
  | interpRevoked (opId : Digest) (by_ : Bytes32) (targetLogId : Digest)
  | displayNameSet (opId : Digest) (by_ : Bytes32) (name : String) (timestamp : ℕ)
  | circleInviteReceived (opId : Digest) (inviter : Bytes32) (circleId : Digest)
      (recipient : Bytes32)
  | circleMemberJoined (opId circleId : Digest) (member : Bytes32)
  | docEdited (opId : Digest) (by_ : Bytes32) (interpKey : String) (baseRev : Digest)
      (crdtUpdate : Bytes) (affectedBlocks : List (Vector UInt8 16)) (timestamp : ℕ)
      (aiGenerated : Bool)
  | docVetoProposed (opId : Digest) (by_ : Bytes32) (interpKey : String)
      (targetEditOpId : Digest) (timestamp : ℕ)
  | docAffirmed (opId : Digest) (by_ : Bytes32) (interpKey : String) (targetRev : Bytes32)
  | docAffirmRetracted (opId : Digest) (by_ : Bytes32) (interpKey : String) (targetRev : Bytes32)
  | editorPresenceChanged (opId : Digest) (by_ : Bytes32) (interpKey : String) (joined : Bool)
      (timestamp : ℕ)
  | skipped (reason : SkipReason)
  deriving DecidableEq

/-! ## Decoding -/

inductive DecodeOutput (Digest Args : Type) where
  | decoded (op : Operation Digest Args) (interp : InterpOp Digest)
  | decodedDoc (op : Operation Digest Args) (doc : DocOp Digest)
  | skipped (reason : SkipReason)

/-- Read the body of an operation, the older wire format first. -/
def decode (C : Codec Digest) (op : Operation Digest Args) : DecodeOutput Digest Args :=
  match op.body with
  | none => .skipped .noBody
  | some bytes =>
    match C.decodeInterp bytes with
    | .ok interp => .decoded op interp
    | .error _ =>
      match C.decodeDoc bytes with
      | .ok doc => .decodedDoc op doc
      | .error message => .skipped (.malformedOp message)

structure DecodeProcessor (Digest Args : Type) where
  inbox : List (Operation Digest Args)
  outbox : List (DecodeOutput Digest Args)

/-- Queue an operation, then decode everything queued, the last one first. -/
def DecodeProcessor.process (C : Codec Digest) (p : DecodeProcessor Digest Args)
    (input : Operation Digest Args) : DecodeProcessor Digest Args :=
  ⟨[], p.outbox ++ (p.inbox ++ [input]).reverse.map (decode C)⟩

/-- Take the last output; without one the caller waits. -/
def DecodeProcessor.next (p : DecodeProcessor Digest Args) :
    Option (DecodeOutput Digest Args × DecodeProcessor Digest Args) :=
  p.outbox.getLast?.map fun out => (out, { p with outbox := p.outbox.dropLast })

/-! ## Materialisation -/

def materializeInterp (opId : Digest) (author : Bytes32) (timestamp : ℕ) :
    InterpOp Digest → StateEvent Digest
  | .author interpKey body => .interpAuthored opId author interpKey body
  | .affirm targetLogId => .affirmAdded targetLogId author
  | .respondTo parentLogId body => .responseAdded opId author parentLogId body
  | .revoke targetLogId => .interpRevoked opId author targetLogId
  | .setDisplayName name => .displayNameSet opId author name timestamp
  | .circleInviteNotify circleId recipient => .circleInviteReceived opId author circleId recipient
  | .circleJoinNotify circleId => .circleMemberJoined opId circleId author

def materializeDoc (opId : Digest) (author : Bytes32) (timestamp : ℕ) :
    DocOp Digest → StateEvent Digest
  | .edit interpKey baseRev crdtUpdate affectedBlocks aiGenerated =>
    .docEdited opId author interpKey baseRev crdtUpdate affectedBlocks timestamp aiGenerated
  | .veto interpKey targetEditOpId =>
    .docVetoProposed opId author interpKey targetEditOpId timestamp
  | .affirmRev interpKey targetRev => .docAffirmed opId author interpKey targetRev
  | .retractAffirm interpKey targetRev => .docAffirmRetracted opId author interpKey targetRev
  | .editorPresence interpKey joined =>
    .editorPresenceChanged opId author interpKey joined timestamp

/-- The event of the plaintext of a circle operation. -/
def materializeCircleContent (C : Codec Digest) (opId : Digest) (author : Bytes32)
    (receivedAt : ℕ) (plaintext : Bytes) : StateEvent Digest :=
  match C.decodeInterp plaintext with
  | .ok interp => materializeInterp opId author receivedAt interp
  | .error _ =>
    match C.decodeDoc plaintext with
    | .ok doc => materializeDoc opId author receivedAt doc
    | .error message => .skipped (.malformedOp message)

variable (H : Hashes Digest Args)

/-- The event of a decoded operation. A decoded operation without a timestamp is a panic. -/
def materializeOutput : DecodeOutput Digest Args → Option (StateEvent Digest)
  | .skipped reason => some (.skipped reason)
  | .decoded op interp => op.header.extensions.timestamp.map fun timestamp =>
    materializeInterp (H.header op.header) op.header.verifyingKey timestamp interp
  | .decodedDoc op doc => op.header.extensions.timestamp.map fun timestamp =>
    materializeDoc (H.header op.header) op.header.verifyingKey timestamp doc

structure MaterializationProcessor (Digest : Type) where
  outbox : List (StateEvent Digest)

def MaterializationProcessor.process (p : MaterializationProcessor Digest)
    (input : DecodeOutput Digest Args) : Option (MaterializationProcessor Digest) :=
  (materializeOutput H input).map fun event => ⟨p.outbox ++ [event]⟩

def MaterializationProcessor.next (p : MaterializationProcessor Digest) :
    Option (StateEvent Digest × MaterializationProcessor Digest) :=
  p.outbox.getLast?.map fun event => (event, ⟨p.outbox.dropLast⟩)

/-! ## The pipeline -/

structure ZodiaPipeline (Digest Args : Type) where
  first : DecodeProcessor Digest Args
  second : MaterializationProcessor Digest

def ZodiaPipeline.new : ZodiaPipeline Digest Args := ⟨⟨[], []⟩, ⟨[]⟩⟩

def ZodiaPipeline.process (C : Codec Digest) (p : ZodiaPipeline Digest Args)
    (op : Operation Digest Args) : ZodiaPipeline Digest Args :=
  { p with first := p.first.process C op }

/-- Hand an output of the first stage to the second, and take an event from that. -/
def ZodiaPipeline.next (p : ZodiaPipeline Digest Args) :
    Option (StateEvent Digest × ZodiaPipeline Digest Args) := do
  let (out, first) ← p.first.next
  let second ← p.second.process H out
  let (event, second) ← second.next
  return (event, ⟨first, second⟩)

/-- One turn of the run loop: feed an operation and await an event. -/
def ZodiaPipeline.turn (C : Codec Digest) (p : ZodiaPipeline Digest Args)
    (op : Operation Digest Args) : Option (StateEvent Digest × ZodiaPipeline Digest Args) :=
  (p.process C op).next H

/-- The event of an operation. -/
def materialize (C : Codec Digest) (op : Operation Digest Args) : Option (StateEvent Digest) :=
  materializeOutput H (decode C op)

/-- A drained pipeline returns the event of the operation, and is drained again. -/
theorem ZodiaPipeline.turn_new (C : Codec Digest) (op : Operation Digest Args) :
    ZodiaPipeline.new.turn H C op =
      (Pipeline.materialize H C op).map fun event => (event, .new) := by
  cases h : materializeOutput H (decode C op) <;>
    simp [turn, process, next, new, DecodeProcessor.process, DecodeProcessor.next,
      MaterializationProcessor.process, MaterializationProcessor.next, Pipeline.materialize, h]

/-- Every interpretation operation has an event, whatever its body. -/
theorem materialize_isSome (C : Codec Digest) {op : Operation Digest Args} {timestamp : ℕ}
    (interp : op.header.extensions = .interp timestamp) : (materialize H C op).isSome := by
  unfold materialize decode
  split
  · rfl
  · split
    · simp [materializeOutput, interp, ZodiaExtensions.timestamp]
    · split <;> simp [materializeOutput, interp, ZodiaExtensions.timestamp]

end Zodia.Pipeline
