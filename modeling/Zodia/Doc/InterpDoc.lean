import Mathlib.Data.Finset.Image
import Mathlib.Data.Finset.Lattice.Fold
import Mathlib.Order.Lattice.Nat
import Zodia.Lib.Primitives

/-!
# Collaborative documents

A document wraps the text of a Loro document. Loro is a library: its operations, its
encodings, its import and its frontiers are a parameter, and the laws of the import are named.
Of its operations only the ids matter here: a local operation gets the next counter after the
largest one of its peer. A new body is one deletion and one insertion, and a revision id is a
hash of the frontiers, in the order in which the library iterates over them.

## Main definitions

* `OpLog` — the operations a Loro document holds.
* `Loro` — what the library computes; `Loro.KeepsIds` and `Loro.SetUnion` are its laws.
* `InterpDoc` — the handle on one document.

## Main results

* `oneOpPerId_commit` — local operations never take an id that is in use.
-/

namespace Zodia.Doc

open Lib

abbrev BlockId := Vector UInt8 16

/-- The single block of a document's whole body. -/
def bodyBlockId : BlockId := Vector.replicate 16 0

/-! ## Operations -/

/-- The id of a CRDT operation. -/
structure OpId where
  peer : UInt64
  counter : ℕ
  deriving DecidableEq

/-- A CRDT operation: its id and what it does to the text. -/
structure CrdtOp (C : Type) where
  id : OpId
  content : C
  deriving DecidableEq

/-- The operations of a document. -/
abbrev OpLog (C : Type) := Finset (CrdtOp C)

variable {Blob C Digest : Type}

/-- No two operations share an id. -/
def OneOpPerId (d : OpLog C) : Prop := ∀ a ∈ d, ∀ b ∈ d, a.id = b.id → a = b

theorem oneOpPerId_empty : OneOpPerId (∅ : OpLog C) := fun _ ha => absurd ha (Finset.notMem_empty _)

/-- The counter after the largest one of the peer. -/
def nextCounter (d : OpLog C) (peer : UInt64) : ℕ :=
  (d.filter fun op => op.id.peer = peer).sup fun op => op.id.counter + 1

theorem counter_lt_nextCounter {d : OpLog C} {op : CrdtOp C} (h : op ∈ d) :
    op.id.counter < nextCounter d op.id.peer :=
  Finset.le_sup (f := fun op : CrdtOp C => op.id.counter + 1) (Finset.mem_filter.2 ⟨h, rfl⟩)

/-- Local operations with the given contents, numbered from the next counter on. -/
def localOps (d : OpLog C) (peer : UInt64) (contents : List C) : List (CrdtOp C) :=
  contents.zipIdx.map fun c => ⟨⟨peer, nextCounter d peer + c.2⟩, c.1⟩

theorem mem_localOps {d : OpLog C} {peer : UInt64} {contents : List C} {op : CrdtOp C} :
    op ∈ localOps d peer contents ↔
      ∃ i, contents[i]? = some op.content ∧ op.id = ⟨peer, nextCounter d peer + i⟩ := by
  constructor
  · intro h
    obtain ⟨⟨c, i⟩, hc, rfl⟩ := List.mem_map.1 h
    exact ⟨i, List.mem_zipIdx_iff_getElem?.1 hc, rfl⟩
  · rintro ⟨i, hc, hid⟩
    refine List.mem_map.2 ⟨(op.content, i), List.mem_zipIdx_iff_getElem?.2 hc, ?_⟩
    cases op
    simp_all

/-- An operation of the document has another id than a local one. -/
theorem id_ne_of_localOps {d : OpLog C} {peer : UInt64} {contents : List C} {a b : CrdtOp C}
    (ha : a ∈ d) (hb : b ∈ localOps d peer contents) : a.id ≠ b.id := by
  obtain ⟨i, -, hid⟩ := mem_localOps.1 hb
  intro same
  have used := counter_lt_nextCounter ha
  rw [same, hid] at used
  dsimp only at used
  omega

section Commit

variable [DecidableEq C]

/-- The document with local operations committed. -/
def commit (d : OpLog C) (peer : UInt64) (contents : List C) : OpLog C :=
  d ∪ (localOps d peer contents).toFinset

theorem mem_commit {d : OpLog C} {peer : UInt64} {contents : List C} {op : CrdtOp C} :
    op ∈ commit d peer contents ↔ op ∈ d ∨ op ∈ localOps d peer contents := by simp [commit]

theorem subset_commit (d : OpLog C) (peer : UInt64) (contents : List C) :
    d ⊆ commit d peer contents := Finset.subset_union_left

theorem oneOpPerId_commit {d : OpLog C} (h : OneOpPerId d) (peer : UInt64) (contents : List C) :
    OneOpPerId (commit d peer contents) := by
  intro a ha b hb same
  rcases mem_commit.1 ha with ha | ha <;> rcases mem_commit.1 hb with hb | hb
  · exact h a ha b hb same
  · exact absurd same (id_ne_of_localOps ha hb)
  · exact absurd same.symm (id_ne_of_localOps hb ha)
  · obtain ⟨i, hi, ida⟩ := mem_localOps.1 ha
    obtain ⟨j, hj, idb⟩ := mem_localOps.1 hb
    obtain rfl : i = j := by
      have counters := congrArg OpId.counter (ida.symm.trans (same.trans idb))
      dsimp only at counters
      omega
    cases a
    cases b
    simp_all

end Commit

/-! ## Revision ids -/

/-- The last `k` bytes of a number, the least significant one first. -/
def littleEndian : ℕ → ℕ → Bytes
  | 0, _ => []
  | k + 1, n => UInt8.ofNat n :: littleEndian k (n / 256)

/-- Peer and counter, in eight and in four bytes. -/
def OpId.bytes (id : OpId) : Bytes := littleEndian 8 id.peer.toNat ++ littleEndian 4 id.counter

/-- The hash of the ids in the order of the iteration. -/
def currentRev (hash : Bytes → Digest) (ids : List OpId) : Digest := hash (ids.flatMap OpId.bytes)

/-! ## The library -/

/-- What Loro computes: its exports, its import, the text of a document, the operations of a
deletion and of an insertion, and the frontiers. `hash` is the hash of revision ids. -/
structure Loro (Blob C Digest : Type) where
  exportSnapshot : OpLog C → Blob
  exportUpdates : OpLog C → Blob
  /-- The operations that an export holds. -/
  decode : Blob → Option (OpLog C)
  importInto : OpLog C → Blob → Option (OpLog C)
  bodyText : OpLog C → String
  /-- The operations of deleting `len` characters from `pos` on. -/
  deleteText : (d : OpLog C) → (pos len : ℕ) → List C
  insertText : (d : OpLog C) → (pos : ℕ) → String → List C
  /-- The frontiers, in the order in which they are iterated over. -/
  stateFrontiers : OpLog C → List OpId
  hash : Bytes → Digest

/-- The operations of a new body: the text there is goes, and the new one comes, each unless it
is empty. -/
def Loro.replaceBody (L : Loro Blob C Digest) (d : OpLog C) (new : String) : List C :=
  let len := (L.bodyText d).length
  (if 0 < len then L.deleteText d 0 len else []) ++
    if new.isEmpty then [] else L.insertText d 0 new

def Loro.currentRev (L : Loro Blob C Digest) (d : OpLog C) : Digest :=
  Doc.currentRev L.hash (L.stateFrontiers d)

/-- A snapshot restores the document, and an update holds all its operations. An import
keeps the operations of the document, and adds none under an id that is in use. -/
structure Loro.KeepsIds (L : Loro Blob C Digest) : Prop where
  restore : ∀ d, OneOpPerId d → L.importInto ∅ (L.exportSnapshot d) = some d
  decode_updates : ∀ d, OneOpPerId d → L.decode (L.exportUpdates d) = some d
  subset_import : ∀ d b d', L.importInto d b = some d' → d ⊆ d'
  import_oneOpPerId : ∀ d b d', OneOpPerId d → L.importInto d b = some d' → OneOpPerId d'

/-- An import is the union of two sets of operations. -/
structure Loro.SetUnion [DecidableEq C] (L : Loro Blob C Digest) : Prop where
  decode_snapshot : ∀ d, L.decode (L.exportSnapshot d) = some d
  decode_updates : ∀ d, L.decode (L.exportUpdates d) = some d
  import_union : ∀ d b, L.importInto d b = (L.decode b).map (d ∪ ·)

/-- Documents of which snapshots restore, however they are edited. -/
structure Loro.Restores [DecidableEq C] (L : Loro Blob C Digest) (Valid : OpLog C → Prop) :
    Prop where
  restore : ∀ d, Valid d → L.importInto ∅ (L.exportSnapshot d) = some d
  valid_empty : Valid ∅
  valid_import : ∀ d b d', Valid d → L.importInto d b = some d' → Valid d'
  valid_commit : ∀ d peer contents, Valid d → Valid (commit d peer contents)

theorem Loro.KeepsIds.restores [DecidableEq C] {L : Loro Blob C Digest} (h : L.KeepsIds) :
    L.Restores OneOpPerId where
  restore := h.restore
  valid_empty := oneOpPerId_empty
  valid_import := h.import_oneOpPerId
  valid_commit _ peer contents hd := oneOpPerId_commit hd peer contents

theorem Loro.SetUnion.restores [DecidableEq C] {L : Loro Blob C Digest} (h : L.SetUnion) :
    L.Restores fun _ => True where
  restore d _ := by simp [h.import_union, h.decode_snapshot]
  valid_empty := trivial
  valid_import _ _ _ _ _ := trivial
  valid_commit _ _ _ _ := trivial

/-! ## The document handle -/

/-- The first eight bytes of a key, little endian. -/
def peerIdFrom (key : Bytes32) : UInt64 :=
  (key.toList.take 8).foldr (fun byte n => byte.toUInt64 + 256 * n) 0

structure InterpDoc (C : Type) where
  inner : OpLog C
  localPeer : UInt64

/-- What `publish_local` returns. -/
structure Edit (Blob Digest : Type) where
  updateBytes : Blob
  affectedBlocks : List BlockId
  rev : Digest

namespace InterpDoc

variable (L : Loro Blob C Digest)

def empty (key : Bytes32) : InterpDoc C := ⟨∅, peerIdFrom key⟩

def fromSnapshot (key : Bytes32) (bytes : Blob) : Option (InterpDoc C) :=
  (L.importInto ∅ bytes).map fun inner => ⟨inner, peerIdFrom key⟩

variable (doc : InterpDoc C)

def snapshot : Blob := L.exportSnapshot doc.inner

def bodyText : String := L.bodyText doc.inner

def currentRev : Digest := L.currentRev doc.inner

/-- Both operations belong to one transaction, so they are numbered one after the other. -/
def setBody [DecidableEq C] (new : String) : InterpDoc C :=
  { doc with inner := commit doc.inner doc.localPeer (L.replaceBody doc.inner new) }

def applyRemote (update : Blob) : Option (InterpDoc C × List BlockId) :=
  (L.importInto doc.inner update).map fun inner => ({ doc with inner := inner }, [bodyBlockId])

def publishLocal : Edit Blob Digest :=
  ⟨L.exportUpdates doc.inner, [bodyBlockId], doc.currentRev L⟩

end InterpDoc

end Zodia.Doc
