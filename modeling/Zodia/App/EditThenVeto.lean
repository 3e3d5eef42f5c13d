import Zodia.App.DocState
import Zodia.App.RegisterDocs

/-!
# An edit and its veto

A received edit and then an honoured veto of it, with nothing between them. The snapshot from
before the edit is stored with the edit and comes back byte for byte. Of the rings nothing is
stored: the edit pushes its author once for each block it lists, which can evict the oldest
entries, and the rollback pops as often. An edit of the device's own user pushes nothing, and
its rollback pops all the same.

## Main definitions

* `SameDocument` — the snapshot and the rings of a key are the same.
* `RingsHaveRoom` — what the edit pushes evicts nothing.

## Main results

* `restored_iff` — when the veto gives the state before the edit back.
-/

namespace Zodia.App

open Lib Doc Store

variable {Blob C Digest : Type}

/-- The snapshot and every ring of the key are the same. -/
def SameDocument (key : String) (st st' : DocStore Blob Digest) : Prop :=
  st'.docLoad key = st.docLoad key ∧
    ∀ block, st'.blockRingGet key block = st.blockRingGet key block

/-- Each listed block has no ring, or a ring with room for as many entries as the list has
of the block. -/
def RingsHaveRoom (st : DocStore Blob Digest) (key : String) (blocks : List BlockId) : Prop :=
  ∀ block ∈ blocks, st.blockRingGet key block = [] ∨
    (st.blockRingGet key block).length + blocks.count block ≤ ringSize

/-! ## What the two handlers leave -/

variable {L : Loro Blob C Digest}
  {st st' : DocStore Blob Digest} {me editorPk revoker : Bytes32} {key : String} {update : Blob}
  {editOpId : Digest} {editTs now later : ℕ} {blocks : List BlockId} {aiGenerated : Bool}

/-- The rings after an edit. -/
def ringsAfterEdit (rings : Rings Digest) (me : Bytes32) (entry : AuthorEntry Digest)
    (blocks : List BlockId) : Rings Digest :=
  if entry.author = me then rings else blocks.foldl (·.push entry) rings

/-- An edit that is applied stores the snapshot from before it and its blocks. -/
theorem applyDocEdit_spec (editorPk : Bytes32) (editOpId : Digest) (editTs : ℕ)
    (blocks : List BlockId) (aiGenerated : Bool) (now : ℕ)
    (applied : ((openDoc L st me key).bind fun doc => doc.applyRemote L update).isSome) :
    let edited :=
      applyDocEdit L st me key update editorPk editOpId editTs blocks aiGenerated now
    (∃ info, edited.docLoadMeta key = some info ∧ info.priorSnapshot = st.docLoad key ∧
        info.lastEditBlocks = some (encodeBlocks blocks)) ∧
      edited.blockRingGet key =
        ringsAfterEdit (st.blockRingGet key) me ⟨editorPk, editOpId, now, aiGenerated⟩ blocks := by
  obtain ⟨⟨doc, text⟩, applied⟩ := Option.isSome_iff_exists.1 applied
  dsimp only
  rw [applyDocEdit, applied, ringsAfterEdit]
  dsimp only
  split_ifs with own
  · exact ⟨⟨⟨st.docLoad key, some editOpId, some editTs, some editorPk, some (encodeBlocks blocks)⟩,
      DocStore.docLoadMeta_docSaveWithHistory .., rfl, rfl⟩, rfl⟩
  · refine ⟨⟨⟨st.docLoad key, some editOpId, some editTs, some editorPk,
      some (encodeBlocks blocks)⟩, ?_, rfl, rfl⟩, blockRingGet_foldl_push _ _⟩
    rw [DocStore.docLoadMeta, docs_foldl_push, ← DocStore.docLoadMeta,
      DocStore.docLoadMeta_docSaveWithHistory]

/-- The rings after an edit and its rollback. -/
theorem pop_ringsAfterEdit_iff {rings : Rings Digest} {entry : AuthorEntry Digest}
    (nonempty : ∃ block ∈ blocks, ringsAfterEdit rings me entry blocks block ≠ []) :
    (∀ block, blocks.foldl Rings.pop (ringsAfterEdit rings me entry blocks) block = rings block) ↔
      entry.author ≠ me ∧ ∀ block ∈ blocks, rings block = [] ∨
        (rings block).length + blocks.count block ≤ ringSize := by
  unfold ringsAfterEdit at nonempty ⊢
  split_ifs at nonempty ⊢ with own
  · -- the rollback pops an entry that the edit did not push
    obtain ⟨block, affected, nonempty⟩ := nonempty
    simp only [own, ne_eq, not_true_eq_false, false_and, iff_false]
    intro same
    have popped := congrArg List.length (same block)
    have count := List.count_pos_iff.2 affected
    have length := List.length_pos_iff.2 nonempty
    rw [Rings.foldl_pop, List.length_take] at popped
    omega
  · simp only [own, ne_eq, not_false_eq_true, true_and]
    constructor
    · exact fun same block affected => (Rings.foldl_pop_push_eq_self affected).1 (same block)
    · intro room block
      by_cases affected : block ∈ blocks
      · exact (Rings.foldl_pop_push_eq_self affected).2 (room block affected)
      · rw [Rings.foldl_pop, Rings.foldl_push_eq_pushAll, List.count_eq_zero.2 affected]
        simp

variable [DecidableEq Digest]

/-- A veto that is honoured makes the prior snapshot current, and pops the rings of the blocks
of the edit. One of these rings has an entry. -/
theorem applyDocVeto_spec (honoured : applyDocVeto L st editOpId revoker key now = some st') :
    ∃ info, st.docLoadMeta key = some info ∧ st'.docLoad key = info.priorSnapshot ∧
      (∃ block ∈ decodeBlocks (info.lastEditBlocks.getD []), st.blockRingGet key block ≠ []) ∧
      st'.blockRingGet key =
        (decodeBlocks (info.lastEditBlocks.getD [])).foldl Rings.pop (st.blockRingGet key) := by
  simp only [applyDocVeto, Option.bind_eq_bind, Option.bind_eq_some_iff, Option.guard_eq_some',
    List.any_eq_true] at honoured
  obtain ⟨info, hinfo, -, -, ts, -, author, -, -, -, -, ⟨block, hblock, authorised⟩, prior, -,
    restored, -, rolled⟩ := honoured
  obtain ⟨⟨info', hinfo', current⟩, rings⟩ := DocStore.docRollback_spec rolled
  obtain rfl : info = info' := Option.some.inj (hinfo.symm.trans hinfo')
  refine ⟨info, hinfo, current, ⟨block, hblock, fun empty => ?_⟩, ?_⟩
  · obtain ⟨⟨entry, inRing, -⟩, -⟩ := vetoAuthorised_iff.1 authorised
    rw [vetoRing, empty] at inRing
    exact absurd ((lastN_suffix _).subset inRing) List.not_mem_nil
  · change st'.blockAuthors.get key = _
    rw [rings, get_foldl_pop]
    rfl

/-- An edit that is applied and then vetoed leaves the snapshot and the rings as they were
exactly if it is of somebody else and its pushes evict no entry. -/
theorem restored_iff
    (applied : ((openDoc L st me key).bind fun doc => doc.applyRemote L update).isSome)
    (honoured : applyDocVeto L (applyDocEdit L st me key update editorPk editOpId editTs blocks
      aiGenerated now) editOpId revoker key later = some st') :
    SameDocument key st st' ↔ editorPk ≠ me ∧ RingsHaveRoom st key blocks := by
  obtain ⟨⟨info, stored, prior, affected⟩, rings⟩ :=
    applyDocEdit_spec editorPk editOpId editTs blocks aiGenerated now applied
  obtain ⟨info', stored', current, nonempty, popped⟩ := applyDocVeto_spec honoured
  obtain rfl : info = info' := Option.some.inj (stored.symm.trans stored')
  rw [affected, Option.getD_some, decodeBlocks_encodeBlocks] at nonempty popped
  rw [rings] at nonempty popped
  rw [SameDocument, current, prior, popped, pop_ringsAfterEdit_iff nonempty]
  simp [RingsHaveRoom]

/-! ## A full ring -/

/-- A document that the peers with keys `2, 2, …` to `n + 1, n + 1, …` have edited. -/
def editedBy (n : ℕ) : DocStore (OpLog String) RegisterDigest :=
  ((List.range n).map fun i => editOf (UInt8.ofNat (i + 2)) "warm" 0).foldl
    (fun st op => st.blockRingPush "sun.leo" bodyBlockId
      ⟨op.header.verifyingKey, .header op.header, 0, false⟩)
    (DocStore.empty.docSave "sun.leo" ∅ (.rev []) 0)

/-- The document after an edit by the peer with key `9, 9, …`, and a veto of it by the peer with
key `5, 5, …`. -/
def editedAndVetoed (st : DocStore (OpLog String) RegisterDigest) :
    Option (DocStore (OpLog String) RegisterDigest) :=
  applyDocVeto registerLoro
    (applyDocEdit registerLoro st (keyOf 1) "sun.leo" (editOf 9 "cold" 0).crdtUpdate (keyOf 9)
      (.header (editOf 9 "cold" 0).header) 0 [bodyBlockId] false 0)
    (.header (editOf 9 "cold" 0).header) (keyOf 5) "sun.leo" 0

/-- With four editors the veto gives the document back. -/
theorem restored_iff_fourEditors :
    ∃ st', editedAndVetoed (editedBy 4) = some st' ∧ SameDocument "sun.leo" (editedBy 4) st' := by
  have honoured : (editedAndVetoed (editedBy 4)).isSome := by decide
  obtain ⟨st', honoured⟩ := Option.isSome_iff_exists.1 honoured
  refine ⟨st', honoured, (restored_iff (by decide) honoured).mpr ⟨by decide, ?_⟩⟩
  intro block affected
  obtain rfl := List.mem_singleton.1 affected
  exact .inr (by decide)

/-- With five the ring is full: the edit evicts the first editor, and the veto does not bring
the entry back. -/
theorem fifth_editor_lost :
    ∃ st', editedAndVetoed (editedBy 5) = some st' ∧
      ¬ SameDocument "sun.leo" (editedBy 5) st' := by
  have four : (editedAndVetoed (editedBy 5)).map (fun st' =>
      (st'.blockRingGet "sun.leo" bodyBlockId).length) = some 4 := by decide
  have five : ((editedBy 5).blockRingGet "sun.leo" bodyBlockId).length = 5 := by decide
  obtain ⟨st', honoured, length⟩ := Option.map_eq_some_iff.1 four
  refine ⟨st', honoured, fun same => ?_⟩
  rw [same.2 bodyBlockId, five] at length
  cases length

end Zodia.App
