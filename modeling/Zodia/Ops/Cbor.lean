import Zodia.Lib.Cbor
import Zodia.Ops.Operations

/-!
# Operation bodies in CBOR

The encoding that the derived serialisers of `ops/src/lib.rs` give the two families: a variant
by its name, its fields by theirs, sequences of bytes as arrays of numbers. The hash and the key
types of the operation library write themselves.

## Main definitions

* `InterpOp.encode`, `InterpOp.decode`, `DocOp.encode`, `DocOp.decode`.
* `cborCodec` — the two decoders.

## Main results

* `InterpOp.decode_encode`, `DocOp.decode_encode` — the round trips.
* `InterpOp.decode_docOp` — an encoded `DocOp` is no `InterpOp`.
-/

namespace Zodia.Ops

open Lib

variable {Digest : Type}

/-- How the hashes and the keys of the operation library are written. -/
structure P2pandaSerde (Digest : Type) where
  hash : FieldCodec Digest 1
  verifyingKey : FieldCodec Bytes32 1

/-- Both as byte strings. -/
def byteStrings : P2pandaSerde Bytes32 := ⟨.byteString 32, .byteString 32⟩

/-- How deeply the reader follows nested items. -/
def recursionLimit : ℕ := 256

/-- `ciborium::from_reader`, up to the type that is read. -/
def fromReader {α : Type} (ofValue : Value → Except DecodeError α) (bytes : Bytes) :
    Except DecodeError α :=
  match Value.read recursionLimit bytes with
  | some (v, _) => ofValue v
  | none => .error .malformed

theorem fromReader_write {α : Type} {ofValue : Value → Except DecodeError α} {v : Value}
    (h : v.depth ≤ recursionLimit) : fromReader ofValue v.write = ofValue v := by
  have whole := Value.read_write h []
  rw [List.append_nil] at whole
  rw [fromReader, whole]

/-- The fields of a variant. -/
def variantFields (name : String) (content : Value) :
    Except DecodeError (List (String × Value)) :=
  match content.fields? with
  | some fields => .ok fields
  | none => .error (.invalidType name)

@[simp] theorem variantFields_record (name : String) (fields : List (String × Value)) :
    variantFields name (.record fields) = .ok fields := by
  simp [variantFields]

section Codecs

variable (S : P2pandaSerde Digest)

abbrev text : FieldCodec String 1 := .string
/-- `Vec<u8>` -/
abbrev byteVec : FieldCodec Bytes 2 := FieldCodec.byte.list
/-- `[u8; 32]` -/
abbrev byteArray32 : FieldCodec Bytes32 2 := FieldCodec.byte.vector 32
/-- `Vec<[u8; 16]>` -/
abbrev blockVec : FieldCodec (List (Vector UInt8 16)) 3 := (FieldCodec.byte.vector 16).list

/-! ## Interpretation operations -/

/-- The variant names of `InterpOp`. -/
def InterpOp.variantName : InterpOp Digest → String
  | .author .. => "Author"
  | .affirm _ => "Affirm"
  | .respondTo .. => "RespondTo"
  | .revoke _ => "Revoke"
  | .setDisplayName _ => "SetDisplayName"
  | .circleInviteNotify .. => "CircleInviteNotify"
  | .circleJoinNotify _ => "CircleJoinNotify"

def InterpOp.fields : InterpOp Digest → List (String × Value)
  | .author interpKey body => [("interp_key", text.toValue interpKey), ("body", text.toValue body)]
  | .affirm targetLogId => [("target_log_id", S.hash.toValue targetLogId)]
  | .respondTo parentLogId body =>
    [("parent_log_id", S.hash.toValue parentLogId), ("body", text.toValue body)]
  | .revoke targetLogId => [("target_log_id", S.hash.toValue targetLogId)]
  | .setDisplayName name => [("name", text.toValue name)]
  | .circleInviteNotify circleId recipient =>
    [("circle_id", S.hash.toValue circleId), ("recipient", S.verifyingKey.toValue recipient)]
  | .circleJoinNotify circleId => [("circle_id", S.hash.toValue circleId)]

def InterpOp.toValue (op : InterpOp Digest) : Value :=
  .variant op.variantName (.record (op.fields S))

def InterpOp.ofValue (v : Value) : Except DecodeError (InterpOp Digest) :=
  match v.variant? with
  | none => .error .notAVariant
  | some (name, content) =>
    match name with
    | "Author" => do
      let fields ← variantFields name content
      return .author (← getField text "interp_key" fields) (← getField text "body" fields)
    | "Affirm" => do
      let fields ← variantFields name content
      return .affirm (← getField S.hash "target_log_id" fields)
    | "RespondTo" => do
      let fields ← variantFields name content
      return .respondTo (← getField S.hash "parent_log_id" fields) (← getField text "body" fields)
    | "Revoke" => do
      let fields ← variantFields name content
      return .revoke (← getField S.hash "target_log_id" fields)
    | "SetDisplayName" => do
      let fields ← variantFields name content
      return .setDisplayName (← getField text "name" fields)
    | "CircleInviteNotify" => do
      let fields ← variantFields name content
      return .circleInviteNotify (← getField S.hash "circle_id" fields)
        (← getField S.verifyingKey "recipient" fields)
    | "CircleJoinNotify" => do
      let fields ← variantFields name content
      return .circleJoinNotify (← getField S.hash "circle_id" fields)
    | _ => .error (.unknownVariant name)

def InterpOp.encode (op : InterpOp Digest) : Bytes := (op.toValue S).write
def InterpOp.decode (bytes : Bytes) : Except DecodeError (InterpOp Digest) :=
  fromReader (InterpOp.ofValue S) bytes

/-! ## Document operations -/

/-- The variant names of `DocOp`. -/
def DocOp.variantName : DocOp Digest → String
  | .edit .. => "Edit"
  | .veto .. => "Veto"
  | .affirmRev .. => "AffirmRev"
  | .editorPresence .. => "EditorPresence"
  | .retractAffirm .. => "RetractAffirm"

def DocOp.fields : DocOp Digest → List (String × Value)
  | .edit interpKey baseRev crdtUpdate affectedBlocks aiGenerated =>
    [("interp_key", text.toValue interpKey), ("base_rev", S.hash.toValue baseRev),
      ("crdt_update", byteVec.toValue crdtUpdate),
      ("affected_blocks", blockVec.toValue affectedBlocks),
      ("ai_generated", FieldCodec.bool.toValue aiGenerated)]
  | .veto interpKey targetEditOpId =>
    [("interp_key", text.toValue interpKey), ("target_edit_op_id", S.hash.toValue targetEditOpId)]
  | .affirmRev interpKey targetRev =>
    [("interp_key", text.toValue interpKey), ("target_rev", byteArray32.toValue targetRev)]
  | .editorPresence interpKey joined =>
    [("interp_key", text.toValue interpKey), ("joined", FieldCodec.bool.toValue joined)]
  | .retractAffirm interpKey targetRev =>
    [("interp_key", text.toValue interpKey), ("target_rev", byteArray32.toValue targetRev)]

def DocOp.toValue (op : DocOp Digest) : Value :=
  .variant op.variantName (.record (op.fields S))

/-- An edit from before `ai_generated` existed has no such field. -/
def DocOp.ofValue (v : Value) : Except DecodeError (DocOp Digest) :=
  match v.variant? with
  | none => .error .notAVariant
  | some (name, content) =>
    match name with
    | "Edit" => do
      let fields ← variantFields name content
      let aiGenerated ← getField? .bool "ai_generated" fields
      return .edit (← getField text "interp_key" fields) (← getField S.hash "base_rev" fields)
        (← getField byteVec "crdt_update" fields) (← getField blockVec "affected_blocks" fields)
        (aiGenerated.getD false)
    | "Veto" => do
      let fields ← variantFields name content
      return .veto (← getField text "interp_key" fields)
        (← getField S.hash "target_edit_op_id" fields)
    | "AffirmRev" => do
      let fields ← variantFields name content
      return .affirmRev (← getField text "interp_key" fields)
        (← getField byteArray32 "target_rev" fields)
    | "EditorPresence" => do
      let fields ← variantFields name content
      return .editorPresence (← getField text "interp_key" fields)
        (← getField .bool "joined" fields)
    | "RetractAffirm" => do
      let fields ← variantFields name content
      return .retractAffirm (← getField text "interp_key" fields)
        (← getField byteArray32 "target_rev" fields)
    | _ => .error (.unknownVariant name)

def DocOp.encode (op : DocOp Digest) : Bytes := (op.toValue S).write
def DocOp.decode (bytes : Bytes) : Except DecodeError (DocOp Digest) :=
  fromReader (DocOp.ofValue S) bytes

/-- The decoders, with the text of their errors. -/
def cborCodec (describe : DecodeError → String) : Codec Digest where
  decodeInterp bytes := (InterpOp.decode S bytes).mapError describe
  decodeDoc bytes := (DocOp.decode S bytes).mapError describe

end Codecs

/-! ## Round trips -/

section RoundTrips

variable {S : P2pandaSerde Digest}

@[simp] theorem ok_bind {ε α β : Type} (a : α) (f : α → Except ε β) :
    (Except.ok a >>= f) = f a := rfl

@[simp] theorem ok_map {ε α β : Type} (a : α) (f : α → β) :
    (f <$> (Except.ok a : Except ε α)) = .ok (f a) := rfl

theorem InterpOp.ofValue_toValue (op : InterpOp Digest) :
    InterpOp.ofValue S (op.toValue S) = .ok op := by
  cases op <;>
    simp [InterpOp.ofValue, InterpOp.toValue, InterpOp.variantName, InterpOp.fields,
      getField, getField?, FieldCodec.ofValue_toValue]

theorem DocOp.ofValue_toValue (op : DocOp Digest) :
    DocOp.ofValue S (op.toValue S) = .ok op := by
  cases op <;>
    simp [DocOp.ofValue, DocOp.toValue, DocOp.variantName, DocOp.fields,
      getField, getField?, FieldCodec.ofValue_toValue]

/-- The fields of an operation are at most arrays of arrays of numbers. -/
theorem InterpOp.depth_fields (op : InterpOp Digest) :
    ∀ f ∈ op.fields S, f.2.depth ≤ 1 := by
  cases op <;> simp [InterpOp.fields, FieldCodec.depth_toValue]

theorem DocOp.depth_fields (op : DocOp Digest) : ∀ f ∈ op.fields S, f.2.depth ≤ 3 := by
  have deeper : ∀ {α : Type} {d : ℕ} (c : FieldCodec α d) (a : α), d ≤ 3 →
      (c.toValue a).depth ≤ 3 := fun c a hd => (c.depth_toValue a).trans hd
  cases op <;> simp [DocOp.fields, deeper]

theorem InterpOp.depth_toValue (op : InterpOp Digest) : (op.toValue S).depth ≤ recursionLimit := by
  have nested : (op.toValue S).depth ≤ 1 + 2 :=
    Value.depth_variant_record (by decide) op.depth_fields
  exact nested.trans (by decide)

theorem DocOp.depth_toValue (op : DocOp Digest) : (op.toValue S).depth ≤ recursionLimit := by
  have nested : (op.toValue S).depth ≤ 3 + 2 :=
    Value.depth_variant_record (by decide) op.depth_fields
  exact nested.trans (by decide)

theorem InterpOp.decode_encode (op : InterpOp Digest) : InterpOp.decode S (op.encode S) = .ok op :=
  (fromReader_write op.depth_toValue).trans op.ofValue_toValue

theorem DocOp.decode_encode (op : DocOp Digest) : DocOp.decode S (op.encode S) = .ok op :=
  (fromReader_write op.depth_toValue).trans op.ofValue_toValue

/-- No variant of `DocOp` has the name of one of `InterpOp`. -/
theorem InterpOp.decode_docOp (op : DocOp Digest) :
    InterpOp.decode S (op.encode S) = .error (.unknownVariant op.variantName) := by
  refine (fromReader_write op.depth_toValue).trans ?_
  cases op <;> simp [InterpOp.ofValue, DocOp.toValue, DocOp.variantName]

section Decoders

variable {describe : DecodeError → String}

theorem decodeInterp_encode (op : InterpOp Digest) :
    (cborCodec S describe).decodeInterp (op.encode S) = .ok op :=
  congrArg (Except.mapError describe) op.decode_encode

theorem decodeInterp_docOp (op : DocOp Digest) :
    (cborCodec S describe).decodeInterp (op.encode S) =
      .error (describe (.unknownVariant op.variantName)) :=
  congrArg (Except.mapError describe) (InterpOp.decode_docOp op)

theorem decodeDoc_encode (op : DocOp Digest) :
    (cborCodec S describe).decodeDoc (op.encode S) = .ok op :=
  congrArg (Except.mapError describe) op.decode_encode

end Decoders

/-- A field that a version does not know makes no difference to it. -/
example (interpKey body : String) (tags : Value) :
    InterpOp.ofValue S (.variant "Author" (.record
      [("interp_key", .text interpKey), ("body", .text body), ("tags", tags)])) =
      .ok (.author interpKey body) := by
  simp [InterpOp.ofValue, getField, getField?, FieldCodec.string]

/-- An edit from before the disclosure of drafts is read as written by hand. -/
example (interpKey : String) (baseRev : Digest) :
    DocOp.ofValue S (.variant "Edit" (.record
      [("interp_key", .text interpKey), ("base_rev", S.hash.toValue baseRev),
        ("crdt_update", .array []), ("affected_blocks", .array [])])) =
      .ok (.edit interpKey baseRev [] [] false) := by
  simp [DocOp.ofValue, getField, getField?, FieldCodec.string, FieldCodec.list,
    FieldCodec.ofValue_toValue]

end RoundTrips

end Zodia.Ops
