import Mathlib.Data.Prod.Lex
import Mathlib.Data.String.Basic
import Mathlib.Order.WithBot
import Zodia.App.DocEdits

/-!
# Documents that are registers

A concrete library for the laws of `Loro`: an operation sets the whole body, and the
operation with the greatest id wins. Exports are the operations themselves, and digests
are the terms they are made of.
-/

namespace Zodia.App

open Lib Doc Store

/-- A digest is what was hashed. -/
inductive RegisterDigest where
  | header (h : OpHeader)
  | localEdit (me : Bytes32) (baseRev : RegisterDigest) (update : OpLog String)
  | migrationEdit (author : Bytes32) (text : String)
  | rev (frontiers : Bytes)
  deriving DecidableEq

def registerIds : OpIds (OpLog String) RegisterDigest where
  header := .header
  localEdit := .localEdit
  migrationEdit := .migrationEdit

theorem registerIds_ideal : registerIds.Ideal where
  header_inj _ _ same := RegisterDigest.header.inj same
  header_ne_local _ _ _ _ same := nomatch same
  header_ne_migration _ _ _ same := nomatch same
  migration_ne_local _ _ _ _ _ same := nomatch same

/-- The operation with the greatest counter, and among these of the greatest peer. -/
def registerTop (d : OpLog String) : WithBot (ℕ ×ₗ ℕ ×ₗ String) :=
  d.sup fun op => ↑(toLex (op.id.counter, toLex (op.id.peer.toNat, op.content)))

def registerText (d : OpLog String) : String :=
  match registerTop d with
  | some op => (ofLex (ofLex op).2).2
  | none => ""

/-- The id of that operation alone. -/
def registerFrontiers (d : OpLog String) : List OpId :=
  match registerTop d with
  | some op => [⟨UInt64.ofNat (ofLex (ofLex op).2).1, (ofLex op).1⟩]
  | none => []

/-- Import as a plain union. A new text takes the place of the old one, so there is nothing to
delete. -/
def registerUnion : Loro (OpLog String) String RegisterDigest where
  exportSnapshot := id
  exportUpdates := id
  decode := some
  importInto d b := some (d ∪ b)
  bodyText := registerText
  deleteText _ _ _ := []
  insertText _ _ new := [new]
  stateFrontiers := registerFrontiers
  hash := .rev

theorem registerUnion_setUnion : registerUnion.SetUnion where
  decode_snapshot _ := rfl
  decode_updates _ := rfl
  import_union _ _ := rfl

instance (d : OpLog String) : Decidable (OneOpPerId d) :=
  inferInstanceAs (Decidable (∀ a ∈ d, ∀ b ∈ d, a.id = b.id → a = b))

/-- Import that refuses an update with another operation under a known id. -/
def registerLoro : Loro (OpLog String) String RegisterDigest :=
  { registerUnion with importInto := fun d b => if OneOpPerId (d ∪ b) then some (d ∪ b) else none }

theorem registerLoro_keepsIds : registerLoro.KeepsIds where
  restore d hd := by simp [registerLoro, registerUnion, hd]
  decode_updates _ _ := rfl
  subset_import d b d' h := by
    simp only [registerLoro] at h
    split_ifs at h
    obtain rfl := Option.some.inj h
    exact Finset.subset_union_left
  import_oneOpPerId d b d' _ h := by
    simp only [registerLoro] at h
    split_ifs at h with one
    obtain rfl := Option.some.inj h
    exact one

/-! ## Operations of some peers -/

/-- The key `n, n, …`. -/
def keyOf (n : UInt8) : Bytes32 := Vector.replicate 32 n

/-- A header of the peer with key `n, n, …`. -/
def headerOf (n : UInt8) (seqNum timestamp : ℕ) : OpHeader :=
  ⟨keyOf n, seqNum, timestamp, keyOf 0⟩

/-- An edit of the document `sun.leo` by a peer that has seen no other. -/
def editOf (n : UInt8) (text : String) (timestamp : ℕ) : DocEdited (OpLog String) :=
  ⟨headerOf n 0 timestamp, "sun.leo", {⟨⟨peerIdFrom (keyOf n), 0⟩, text⟩}, [bodyBlockId], false⟩

/-- A veto of that edit by the peer with key `n, n, …`. -/
def vetoOf (n : UInt8) (edit : DocEdited (OpLog String)) (timestamp : ℕ) :
    DocVetoProposed RegisterDigest :=
  ⟨headerOf n 1 timestamp, "sun.leo", .header edit.header⟩

end Zodia.App
