import Zodia.Lib.Run
import Zodia.Store.Docs

/-!
# The table of rings and the ring

The author ring of a block is kept as numbered rows: a push reads them, appends, drops the
oldest and writes all rows anew, and a rollback deletes the row with the greatest number. The
document library has a ring in memory. Driven by the same calls, the rows of each block are
the entries of its ring.

## Main definitions

* `RingCall` — the calls that write documents and rings.
* `RingState.step` — a call on the tables, and on one ring for each block.
* `Refines` — the tables hold the rings.

## Main results

* `refines_step` — a call keeps the tables and the rings together.
* `ring_refined` — they stay together in every run, and a call touches the rings it names.
-/

namespace Zodia.Store

open Lib Doc

variable {Blob Digest : Type}

/-! ## The ring in memory -/

/-- The ring without its newest entry. -/
def dropNewest (ring : Doc.Ring Digest) : Doc.Ring Digest :=
  ⟨ring.entries.dropLast, (List.dropLast_sublist _).length_le.trans ring.length_le⟩

/-- The entry of a row as the ring has it. -/
def AuthorEntry.ringEntry (e : AuthorEntry Digest) : RingEntry Digest :=
  ⟨e.author, e.editOpId, e.editedAt⟩

/-- A ring for each block of each key. -/
abbrev BlockRings (Digest : Type) := String → BlockId → Doc.Ring Digest

/-- Rewrite the ring of one block. -/
def BlockRings.onBlock (rings : BlockRings Digest) (key : String) (block : BlockId)
    (f : Doc.Ring Digest → Doc.Ring Digest) : BlockRings Digest :=
  fun key' block' =>
    if key = key' ∧ block = block' then f (rings key' block') else rings key' block'

/-! ## Calls -/

inductive RingCall (Blob Digest : Type) where
  | docSave (interpKey : String) (snapshot : Blob) (snapshotRev : Digest) (now : ℕ)
  | docSaveWithHistory (interpKey : String) (snapshot : Blob) (snapshotRev : Digest)
      (prior : Option Blob) (lastEditOpId : Digest) (lastEditTs : ℕ) (lastEditAuthor : Bytes32)
      (lastEditBlocks : Bytes) (now : ℕ)
  | blockRingPush (interpKey : String) (block : BlockId) (entry : AuthorEntry Digest)
  | docRollback (interpKey : String) (snapshotRev : Digest) (affectedBlocks : List BlockId)
      (now : ℕ)

/-- The call names the ring of the block. -/
def RingCall.Names (key : String) (block : BlockId) : RingCall Blob Digest → Prop
  | docSave _ _ _ _ => False
  | docSaveWithHistory _ _ _ _ _ _ _ _ _ => False
  | blockRingPush key' block' _ => key' = key ∧ block' = block
  | docRollback key' _ blocks _ => key' = key ∧ block ∈ blocks

/-- The tables, and the rings that the same pushes and removals drive. -/
structure RingState (Blob Digest : Type) where
  store : DocStore Blob Digest
  rings : BlockRings Digest

namespace RingState

def fresh : RingState Blob Digest := ⟨DocStore.empty, fun _ _ => .new⟩

/-- One call. A rollback of a document without a prior snapshot does nothing. -/
def step (s : RingState Blob Digest) : RingCall Blob Digest → RingState Blob Digest
  | .docSave key snapshot rev now => { s with store := s.store.docSave key snapshot rev now }
  | .docSaveWithHistory key snapshot rev prior opId ts author blocks now =>
    { s with store := s.store.docSaveWithHistory key snapshot rev prior opId ts author blocks now }
  | .blockRingPush key block entry =>
    { store := s.store.blockRingPush key block entry
      rings := s.rings.onBlock key block (·.push entry.ringEntry) }
  | .docRollback key rev blocks now =>
    match s.store.docRollback key rev blocks now with
    | none => s
    | some store =>
      { store := store
        rings := blocks.foldl (fun rings block => rings.onBlock key block dropNewest) s.rings }

end RingState

/-! ## The tables hold the rings -/

/-- The rows of each block are the entries of its ring, at the positions from 0 on. -/
structure AuthorTable.Holds (t : AuthorTable Digest) (rings : BlockRings Digest) : Prop where
  entries : ∀ key block, (t.get key block).map AuthorEntry.ringEntry = (rings key block).entries
  positions : ∀ key block, (t.blockRows key block).map AuthorRow.position =
    List.range (t.get key block).length

/-- What the store returns for a block is its ring, and there are at most `ringSize` rows,
numbered from 0 on. -/
structure Refines (s : RingState Blob Digest) : Prop where
  entries : ∀ key block,
    (s.store.blockRingGet key block).map AuthorEntry.ringEntry = (s.rings key block).entries
  positions : ∀ key block, (s.store.blockAuthors.blockRows key block).map AuthorRow.position =
    List.range (s.store.blockRingGet key block).length
  size : ∀ key block, (s.store.blockRingGet key block).length ≤ ringSize

/-- The call leaves the rows of the other blocks and their rings alone. -/
def Frames (s : RingState Blob Digest) (call : RingCall Blob Digest) : Prop :=
  ∀ key block, ¬ call.Names key block →
    (s.step call).store.blockAuthors.blockRows key block =
      s.store.blockAuthors.blockRows key block ∧ (s.step call).rings key block = s.rings key block

namespace AuthorTable

variable {t : AuthorTable Digest} {rings : BlockRings Digest} {key : String} {block : BlockId}

theorem positions_ringRows (entries : List (AuthorEntry Digest)) :
    (ringRows key block entries).map AuthorRow.position = List.range entries.length := by
  rw [ringRows, List.map_map, List.range_eq_range', ← List.zipIdx_map_snd 0 entries]
  rfl

theorem Holds.push (h : t.Holds rings) (entry : AuthorEntry Digest) :
    (t.push key block entry).Holds (rings.onBlock key block (·.push entry.ringEntry)) where
  entries key' block' := by
    rw [get_push, BlockRings.onBlock]
    split_ifs with same
    · rw [map_lastN, List.map_append, h.entries]
      rfl
    · exact h.entries key' block'
  positions key' block' := by
    rw [get_push]
    split_ifs with same
    · obtain ⟨rfl, rfl⟩ := same
      rw [AuthorTable.push, blockRows_replace_self, positions_ringRows]
    · rw [AuthorTable.push, blockRows_replace_other _ same]
      exact h.positions key' block'

theorem Holds.pop (h : t.Holds rings) (key : String) (block : BlockId) :
    (t.pop key block).Holds (rings.onBlock key block dropNewest) where
  entries key' block' := by
    rw [get_pop, BlockRings.onBlock]
    split_ifs with same
    · rw [List.map_dropLast, h.entries]
      rfl
    · exact h.entries key' block'
  positions key' block' := by
    rw [get_pop]
    split_ifs with same
    · obtain ⟨rfl, rfl⟩ := same
      rw [blockRows_pop, List.map_dropLast, h.positions, List.length_dropLast]
      cases (t.get key block).length with
      | zero => rfl
      | succ n => rw [List.range_succ, List.dropLast_concat, Nat.add_sub_cancel]
    · rw [blockRows_pop_other same]
      exact h.positions key' block'

theorem Holds.pops (h : t.Holds rings) (key : String) (blocks : List BlockId) :
    (blocks.foldl (fun t block => t.pop key block) t).Holds
      (blocks.foldl (fun rings block => rings.onBlock key block dropNewest) rings) := by
  induction blocks generalizing t rings with
  | nil => exact h
  | cons block blocks ih => exact ih (h.pop key block)

/-- Pops leave the blocks alone that they do not name. -/
theorem blockRows_pops_other {blocks : List BlockId} {key' : String} {block' : BlockId}
    (other : ¬(key = key' ∧ block' ∈ blocks)) :
    (blocks.foldl (fun t block => t.pop key block) t).blockRows key' block' =
      t.blockRows key' block' := by
  induction blocks generalizing t with
  | nil => rfl
  | cons block blocks ih =>
    rw [List.foldl_cons, ih fun same => other ⟨same.1, List.mem_cons_of_mem _ same.2⟩,
      blockRows_pop_other fun same => other ⟨same.1, List.mem_cons.mpr (.inl same.2.symm)⟩]

end AuthorTable

theorem BlockRings.onBlock_other {rings : BlockRings Digest} {key key' : String}
    {block block' : BlockId} {f : Doc.Ring Digest → Doc.Ring Digest}
    (other : ¬(key = key' ∧ block = block')) :
    rings.onBlock key block f key' block' = rings key' block' := if_neg other

theorem BlockRings.foldl_onBlock_other {rings : BlockRings Digest} {key key' : String}
    {blocks : List BlockId} {block' : BlockId} {f : Doc.Ring Digest → Doc.Ring Digest}
    (other : ¬(key = key' ∧ block' ∈ blocks)) :
    blocks.foldl (fun rings block => rings.onBlock key block f) rings key' block' =
      rings key' block' := by
  induction blocks generalizing rings with
  | nil => rfl
  | cons block blocks ih =>
    rw [List.foldl_cons, ih fun same => other ⟨same.1, List.mem_cons_of_mem _ same.2⟩,
      onBlock_other fun same => other ⟨same.1, List.mem_cons.mpr (.inl same.2.symm)⟩]

/-! ## Calls and runs -/

variable {s : RingState Blob Digest}

theorem Refines.of_holds (h : s.store.blockAuthors.Holds s.rings) : Refines s where
  entries := h.entries
  positions := h.positions
  size key block := by
    have lengths := congrArg List.length (h.entries key block)
    rw [List.length_map] at lengths
    exact lengths.trans_le (s.rings key block).length_le

/-- A call keeps the tables and the rings together. -/
theorem refines_step (h : s.store.blockAuthors.Holds s.rings) (call : RingCall Blob Digest) :
    (s.step call).store.blockAuthors.Holds (s.step call).rings := by
  cases call with
  | docSave key snapshot rev now => exact h
  | docSaveWithHistory => exact h
  | blockRingPush key block entry => exact h.push entry
  | docRollback key rev blocks now =>
    rw [RingState.step]
    cases rolled : s.store.docRollback key rev blocks now with
    | none => exact h
    | some store =>
      dsimp only
      rw [(DocStore.docRollback_spec rolled).2]
      exact h.pops key blocks

theorem frames_step (s : RingState Blob Digest) (call : RingCall Blob Digest) : Frames s call := by
  intro key block unnamed
  cases call with
  | docSave => exact ⟨rfl, rfl⟩
  | docSaveWithHistory => exact ⟨rfl, rfl⟩
  | blockRingPush key' block' entry =>
    exact ⟨AuthorTable.blockRows_replace_other _ unnamed,
      if_neg unnamed⟩
  | docRollback key' rev blocks now =>
    rw [RingState.step]
    cases rolled : s.store.docRollback key' rev blocks now with
    | none => exact ⟨rfl, rfl⟩
    | some store =>
      dsimp only
      rw [(DocStore.docRollback_spec rolled).2]
      exact ⟨AuthorTable.blockRows_pops_other unnamed, BlockRings.foldl_onBlock_other unnamed⟩

/-- In every run the store returns the entries of the rings, in their order, at the positions
from 0 on, and each call leaves the blocks alone that it does not name. -/
theorem ring_refined (calls : List (RingCall Blob Digest)) :
    Always RingState.step Refines .fresh calls ∧ Along RingState.step Frames .fresh calls := by
  have start : (RingState.fresh : RingState Blob Digest).store.blockAuthors.Holds
      (RingState.fresh : RingState Blob Digest).rings := ⟨fun _ _ => rfl, fun _ _ => rfl⟩
  constructor
  · have unguarded : Along RingState.step (fun _ _ => True)
        (RingState.fresh : RingState Blob Digest) calls := Along.of_mem fun _ _ _ => trivial
    exact Always.of_invariant
      (fun (s : RingState Blob Digest) call (h : s.store.blockAuthors.Holds s.rings) _ =>
        refines_step h call)
      (fun s h => Refines.of_holds h) start unguarded
  · exact Along.of_mem fun s call _ => frames_step s call

end Zodia.Store
