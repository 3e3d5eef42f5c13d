import Zodia.Lib.Primitives

/-!
# Operation bodies

The two families of operations that an operation body encodes, and the codec that reads
them.
-/

namespace Zodia.Ops

open Lib

/-- An operation on whole interpretations, a display name or a circle notice. -/
inductive InterpOp (Digest : Type) where
  | author (interpKey body : String)
  | affirm (targetLogId : Digest)
  | respondTo (parentLogId : Digest) (body : String)
  | revoke (targetLogId : Digest)
  | setDisplayName (name : String)
  | circleInviteNotify (circleId : Digest) (recipient : Bytes32)
  | circleJoinNotify (circleId : Digest)
  deriving DecidableEq

/-- An operation on the document of a key. -/
inductive DocOp (Digest : Type) where
  | edit (interpKey : String) (baseRev : Digest) (crdtUpdate : Bytes)
      (affectedBlocks : List (Vector UInt8 16)) (aiGenerated : Bool)
  | veto (interpKey : String) (targetEditOpId : Digest)
  | affirmRev (interpKey : String) (targetRev : Bytes32)
  | editorPresence (interpKey : String) (joined : Bool)
  | retractAffirm (interpKey : String) (targetRev : Bytes32)
  deriving DecidableEq

def DocOp.interpKey {Digest : Type} : DocOp Digest → String
  | .edit interpKey .. => interpKey
  | .veto interpKey _ => interpKey
  | .affirmRev interpKey _ => interpKey
  | .editorPresence interpKey _ => interpKey
  | .retractAffirm interpKey _ => interpKey

/-- The decoders of the two families; an error carries its text. -/
structure Codec (Digest : Type) where
  decodeInterp : Bytes → Except String (InterpOp Digest)
  decodeDoc : Bytes → Except String (DocOp Digest)

end Zodia.Ops
