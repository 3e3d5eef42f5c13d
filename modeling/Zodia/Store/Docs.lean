import Mathlib.Data.List.Sort
import Zodia.Doc.Ring
import Zodia.Lib.Table

/-!
# Stored documents

The table `interp_docs` holds one row for each key: the current snapshot, and, for the
newest edit, the snapshot before it and what a veto needs to know of it. The table
`doc_block_authors` holds the author ring of each block of each key, oldest first.

## Main definitions

* `DocStore` — the two tables.
* `DocStore.docSaveWithHistory`, `DocStore.docRollback`, `DocStore.blockRingPush`.

## Main results

* `blockRingGet_push` — a push appends to the ring of its block and evicts the oldest.
* `blockRingGet_pop` — a pop takes the newest entry of its block and no other.
-/

namespace Zodia.Store

open Lib Doc

variable {Blob Digest : Type}

/-! ## Author rings -/

structure AuthorEntry (Digest : Type) where
  author : Bytes32
  editOpId : Digest
  editedAt : ℕ
  aiGenerated : Bool
  deriving DecidableEq

/-- A row of `doc_block_authors`. -/
structure AuthorRow (Digest : Type) where
  interpKey : String
  blockId : BlockId
  position : ℕ
  entry : AuthorEntry Digest

/-- Whether the row belongs to the ring of this block. -/
def AuthorRow.onBlock (key : String) (block : BlockId) (r : AuthorRow Digest) : Bool :=
  r.interpKey = key ∧ r.blockId = block

@[simp] theorem AuthorRow.onBlock_iff {key : String} {block : BlockId} {r : AuthorRow Digest} :
    r.onBlock key block = true ↔ r.interpKey = key ∧ r.blockId = block := by simp [onBlock]

abbrev AuthorTable (Digest : Type) :=
  Table fun r : AuthorRow Digest => (r.interpKey, r.blockId, r.position)

namespace AuthorTable

variable (t : AuthorTable Digest) (key : String) (block : BlockId)

/-- The rows of a block, `ORDER BY position ASC`. -/
def blockRows : List (AuthorRow Digest) :=
  (t.rows.filter (·.onBlock key block)).insertionSort fun a b => a.position ≤ b.position

def get : List (AuthorEntry Digest) := (t.blockRows key block).map (·.entry)

/-- The rows that hold `entries` at the positions from 0 on. -/
def ringRows (entries : List (AuthorEntry Digest)) : List (AuthorRow Digest) :=
  entries.zipIdx.map fun e => ⟨key, block, e.2, e.1⟩

theorem onBlock_of_mem_ringRows {key : String} {block : BlockId}
    {entries : List (AuthorEntry Digest)} {r : AuthorRow Digest}
    (h : r ∈ ringRows key block entries) : r.onBlock key block = true := by
  obtain ⟨e, -, rfl⟩ := List.mem_map.1 h
  simp

theorem pairwise_ringRows (entries : List (AuthorEntry Digest)) :
    (ringRows key block entries).Pairwise fun a b => a.position < b.position := by
  have positions : (entries.zipIdx.map Prod.snd).Pairwise (· < ·) := by
    rw [List.zipIdx_map_snd]
    exact List.pairwise_lt_range'
  exact List.pairwise_map.2 (List.pairwise_map.1 positions)

/-- Replace the ring of a block: `DELETE` and an `INSERT` for each entry. -/
def replace (entries : List (AuthorEntry Digest)) : AuthorTable Digest :=
  ⟨t.rows.filter (fun r => !r.onBlock key block) ++ ringRows key block entries, by
    have old := (t.filter fun r => !r.onBlock key block).nodup
    have new : ((ringRows key block entries).map
        fun r => (r.interpKey, r.blockId, r.position)).Nodup := by
      refine List.pairwise_map.2 ((pairwise_ringRows key block entries).imp fun lt same => ?_)
      exact lt.ne (Prod.mk.inj (Prod.mk.inj same).2).2
    refine List.map_append ▸ List.nodup_append.2 ⟨old, new, ?_⟩
    intro k hk k' hk' same
    obtain ⟨r, hr, rfl⟩ := List.mem_map.1 hk
    obtain ⟨r', hr', rfl⟩ := List.mem_map.1 hk'
    have off := (List.mem_filter.1 hr).2
    have on := onBlock_of_mem_ringRows hr'
    grind [AuthorRow.onBlock_iff]⟩

/-- Append an author to the ring of a block; the oldest falls off. -/
def push (entry : AuthorEntry Digest) : AuthorTable Digest :=
  t.replace key block (lastN ringSize (t.get key block ++ [entry]))

/-- Delete the row of a block with the greatest position. -/
def pop : AuthorTable Digest :=
  match ((t.rows.filter (·.onBlock key block)).map (·.position)).max? with
  | none => t
  | some p => t.filter fun r => !(r.onBlock key block && r.position == p)

/-! ### The order of a ring -/

variable {t key block}

theorem blockRows_perm : (t.blockRows key block).Perm (t.rows.filter (·.onBlock key block)) :=
  List.perm_insertionSort _ _

theorem pairwise_blockRows :
    (t.blockRows key block).Pairwise fun a b => a.position < b.position := by
  have sorted : (t.blockRows key block).Pairwise fun a b => a.position ≤ b.position :=
    List.pairwise_insertionSort _ _
  have distinct : (t.blockRows key block).Pairwise fun a b => a.position ≠ b.position := by
    have rows : (t.rows.filter (·.onBlock key block)).Pairwise
        fun a b => a.position ≠ b.position := by
      have keys := List.pairwise_map.1 (t.filter (·.onBlock key block)).nodup
      refine keys.imp_of_mem fun {a b} ha hb ne same => ne ?_
      have on := AuthorRow.onBlock_iff.1 (List.mem_filter.1 ha).2
      have on' := AuthorRow.onBlock_iff.1 (List.mem_filter.1 hb).2
      simp [on.1, on.2, on'.1, on'.2, same]
    exact rows.perm blockRows_perm.symm fun h => h.symm
  exact sorted.imp₂ (fun _ _ le ne => lt_of_le_of_ne le ne) distinct

/-- The rows of a block are the one list of them with rising positions. -/
theorem blockRows_eq {l : List (AuthorRow Digest)}
    (perm : l.Perm (t.rows.filter (·.onBlock key block)))
    (rising : l.Pairwise fun a b => a.position < b.position) : t.blockRows key block = l :=
  (blockRows_perm.trans perm.symm).eq_of_pairwise
    (fun _ _ _ _ lt gt => absurd lt (Nat.lt_asymm gt)) pairwise_blockRows rising

theorem blockRows_replace_self (entries : List (AuthorEntry Digest)) :
    (t.replace key block entries).blockRows key block = ringRows key block entries := by
  refine blockRows_eq ?_ (pairwise_ringRows key block entries)
  have off : (t.rows.filter fun r => !r.onBlock key block).filter (·.onBlock key block) = [] := by
    simp
  have on : (ringRows key block entries).filter (·.onBlock key block) =
      ringRows key block entries :=
    List.filter_eq_self.2 fun _ hr => onBlock_of_mem_ringRows hr
  simp only [replace, List.filter_append, off, on, List.nil_append]
  exact List.Perm.refl _

theorem blockRows_replace_other (entries : List (AuthorEntry Digest)) {key' : String}
    {block' : BlockId} (other : ¬(key = key' ∧ block = block')) :
    (t.replace key block entries).blockRows key' block' = t.blockRows key' block' := by
  have rows : (t.replace key block entries).rows.filter (·.onBlock key' block') =
      t.rows.filter (·.onBlock key' block') := by
    have off : (ringRows key block entries).filter (·.onBlock key' block') = [] := by
      apply List.filter_eq_nil_iff.2
      intro r hr
      have on := AuthorRow.onBlock_iff.1 (onBlock_of_mem_ringRows hr)
      grind [AuthorRow.onBlock_iff]
    have keep : (t.rows.filter fun r => !r.onBlock key block).filter (·.onBlock key' block') =
        t.rows.filter (·.onBlock key' block') := by
      rw [List.filter_filter]
      apply List.filter_congr
      intro r _
      grind [AuthorRow.onBlock]
    simp only [replace, List.filter_append, off, keep, List.append_nil]
  rw [blockRows, rows, blockRows]

theorem get_replace (entries : List (AuthorEntry Digest)) (key' : String) (block' : BlockId) :
    (t.replace key block entries).get key' block' =
      if key = key' ∧ block = block' then entries else t.get key' block' := by
  split_ifs with same
  · obtain ⟨rfl, rfl⟩ := same
    rw [get, blockRows_replace_self, ringRows, List.map_map]
    exact List.zipIdx_map_fst 0 entries
  · rw [get, blockRows_replace_other entries same, get]

theorem get_push (entry : AuthorEntry Digest) (key' : String) (block' : BlockId) :
    (t.push key block entry).get key' block' =
      if key = key' ∧ block = block' then lastN ringSize (t.get key' block' ++ [entry])
      else t.get key' block' := by
  rw [push, get_replace]
  split_ifs with same
  · obtain ⟨rfl, rfl⟩ := same
    rfl
  · rfl

/-- What a pop leaves of a block. -/
theorem blockRows_pop :
    (t.pop key block).blockRows key block = (t.blockRows key block).dropLast := by
  have perm : (t.blockRows key block).Perm (t.rows.filter (·.onBlock key block)) := blockRows_perm
  have rising : (t.blockRows key block).Pairwise fun a b => a.position < b.position :=
    pairwise_blockRows
  rcases List.eq_nil_or_concat (t.blockRows key block) with empty | ⟨older, newest, rows⟩
  · have none : t.rows.filter (·.onBlock key block) = [] := by
      rw [empty] at perm
      exact perm.symm.eq_nil
    have same : t.pop key block = t := by simp [pop, none]
    rw [same, empty, List.dropLast_nil]
  · rw [List.concat_eq_append] at rows
    rw [rows] at perm rising
    have below : ∀ r ∈ older, r.position < newest.position := by
      have := (List.pairwise_append.1 rising).2.2
      exact fun r hr => this r hr newest (by simp)
    have greatest : ((t.rows.filter (·.onBlock key block)).map (·.position)).max? =
        some newest.position := by
      refine List.max?_eq_some_iff.2 ⟨List.mem_map.2 ⟨newest, perm.subset (by simp), rfl⟩, ?_⟩
      intro p hp
      obtain ⟨r, hr, rfl⟩ := List.mem_map.1 hp
      rcases List.mem_append.1 (perm.symm.subset hr) with old | new
      · exact (below r old).le
      · rw [List.mem_singleton.1 new]
    have left : ((t.pop key block).rows.filter (·.onBlock key block)) =
        (t.rows.filter (·.onBlock key block)).filter fun r => r.position != newest.position := by
      simp only [pop, greatest, Table.filter, List.filter_filter]
      apply List.filter_congr
      intro r _
      cases r.onBlock key block <;> simp [bne]
    rw [rows, List.dropLast_concat]
    refine blockRows_eq ?_ (List.pairwise_append.1 rising).1
    rw [left]
    refine List.Perm.trans ?_ (perm.filter _)
    have keep : older.filter (fun r => r.position != newest.position) = older :=
      List.filter_eq_self.2 fun r hr => by simpa using (below r hr).ne
    simp [keep]

theorem blockRows_pop_other {key' : String} {block' : BlockId}
    (other : ¬(key = key' ∧ block = block')) :
    (t.pop key block).blockRows key' block' = t.blockRows key' block' := by
  have rows : (t.pop key block).rows.filter (·.onBlock key' block') =
      t.rows.filter (·.onBlock key' block') := by
    unfold pop
    split
    · rfl
    · simp only [Table.filter, List.filter_filter]
      apply List.filter_congr
      intro r _
      grind [AuthorRow.onBlock]
  rw [blockRows, rows, blockRows]

/-- A pop takes the newest entry of its block. -/
theorem get_pop (key' : String) (block' : BlockId) :
    (t.pop key block).get key' block' =
      if key = key' ∧ block = block' then (t.get key' block').dropLast
      else t.get key' block' := by
  split_ifs with same
  · obtain ⟨rfl, rfl⟩ := same
    rw [get, blockRows_pop, get, List.map_dropLast]
  · rw [get, blockRows_pop_other same, get]

theorem mem_get {e : AuthorEntry Digest} :
    e ∈ t.get key block ↔ ∃ r ∈ t, r.onBlock key block = true ∧ r.entry = e := by
  rw [get, List.mem_map]
  simp only [blockRows_perm.mem_iff, List.mem_filter, Table.mem_rows, and_assoc]

end AuthorTable

/-! ## Documents -/

/-- A row of `interp_docs`. -/
structure DocRow (Blob Digest : Type) where
  interpKey : String
  loroSnapshot : Blob
  snapshotRev : Digest
  updatedAt : ℕ
  priorSnapshot : Option Blob
  lastEditOpId : Option Digest
  lastEditTs : Option ℕ
  lastEditAuthor : Option Bytes32
  lastEditBlocks : Option Bytes

/-- What a veto needs to know of the newest edit. -/
structure DocMeta (Blob Digest : Type) where
  priorSnapshot : Option Blob
  lastEditOpId : Option Digest
  lastEditTs : Option ℕ
  lastEditAuthor : Option Bytes32
  lastEditBlocks : Option Bytes

structure DocStore (Blob Digest : Type) where
  docs : Table fun r : DocRow Blob Digest => r.interpKey
  blockAuthors : AuthorTable Digest

/-- The columns that a later edit or veto reads. -/
def DocRow.columns (row : DocRow Blob Digest) : Blob × DocMeta Blob Digest :=
  (row.loroSnapshot, ⟨row.priorSnapshot, row.lastEditOpId, row.lastEditTs, row.lastEditAuthor,
    row.lastEditBlocks⟩)

/-- The row with the prior snapshot as the current one and the newest edit forgotten. -/
def DocRow.rolledBack (row : DocRow Blob Digest) (prior : Blob) (snapshotRev : Digest) (now : ℕ) :
    DocRow Blob Digest :=
  ⟨row.interpKey, prior, snapshotRev, now, none, none, none, none, none⟩

namespace DocStore

def empty : DocStore Blob Digest := ⟨Table.empty, Table.empty⟩

variable (st : DocStore Blob Digest) (key : String)

def docLoad : Option Blob := (st.docs.find? key).map (·.loroSnapshot)

/-- Replace or insert the snapshot of a document; its other columns stay. -/
def docSave (snapshot : Blob) (snapshotRev : Digest) (now : ℕ) : DocStore Blob Digest :=
  let row : DocRow Blob Digest := match st.docs.find? key with
    | some row =>
      { row with loroSnapshot := snapshot, snapshotRev := snapshotRev, updatedAt := now }
    | none => ⟨key, snapshot, snapshotRev, now, none, none, none, none, none⟩
  { st with docs := st.docs.upsert row }

/-- Replace or insert the snapshot of a document together with what a rollback needs. -/
def docSaveWithHistory (snapshot : Blob) (snapshotRev : Digest) (prior : Option Blob)
    (lastEditOpId : Digest) (lastEditTs : ℕ) (lastEditAuthor : Bytes32) (lastEditBlocks : Bytes)
    (now : ℕ) : DocStore Blob Digest :=
  { st with
    docs := st.docs.upsert ⟨key, snapshot, snapshotRev, now, prior, some lastEditOpId,
      some lastEditTs, some lastEditAuthor, some lastEditBlocks⟩ }

def docLoadMeta : Option (DocMeta Blob Digest) :=
  (st.docs.find? key).map fun row => row.columns.2

theorem docLoadMeta_docSaveWithHistory {snapshot : Blob} {rev opId : Digest} {prior : Option Blob}
    {ts now : ℕ} {author : Bytes32} {blocks : Bytes} :
    (st.docSaveWithHistory key snapshot rev prior opId ts author blocks now).docLoadMeta key =
      some ⟨prior, some opId, some ts, some author, some blocks⟩ := by
  simp [docLoadMeta, docSaveWithHistory, Table.find?_upsert, DocRow.columns]

def blockRingGet (block : BlockId) : List (AuthorEntry Digest) := st.blockAuthors.get key block

def blockRingPush (block : BlockId) (entry : AuthorEntry Digest) : DocStore Blob Digest :=
  { st with blockAuthors := st.blockAuthors.push key block entry }

theorem blockRingGet_push {st : DocStore Blob Digest} {key key' : String} {block block' : BlockId}
    {entry : AuthorEntry Digest} :
    (st.blockRingPush key block entry).blockRingGet key' block' =
      if key = key' ∧ block = block' then
        lastN ringSize (st.blockRingGet key' block' ++ [entry])
      else st.blockRingGet key' block' := AuthorTable.get_push entry key' block'

/-- Whether a ring of the document has an entry that was drafted by a model. -/
def docHasAiGeneratedContent : Bool :=
  st.blockAuthors.rows.any fun r => decide (r.interpKey = key) && r.entry.aiGenerated

theorem docHasAiGeneratedContent_iff {st : DocStore Blob Digest} {key : String} :
    st.docHasAiGeneratedContent key = true ↔
      ∃ block, ∃ e ∈ st.blockRingGet key block, e.aiGenerated = true := by
  simp only [docHasAiGeneratedContent, List.any_eq_true, Bool.and_eq_true, decide_eq_true_eq,
    blockRingGet, AuthorTable.mem_get, AuthorRow.onBlock_iff]
  constructor
  · rintro ⟨r, hr, rfl, drafted⟩
    exact ⟨r.blockId, r.entry, ⟨r, hr, ⟨rfl, rfl⟩, rfl⟩, drafted⟩
  · rintro ⟨block, e, ⟨r, hr, ⟨rfl, -⟩, rfl⟩, drafted⟩
    exact ⟨r, hr, rfl, drafted⟩

/-- Make the prior snapshot the current one, forget the newest edit, and pop the newest
entry of each given ring. `none` when there is no prior snapshot. -/
def docRollback (snapshotRev : Digest) (affectedBlocks : List BlockId) (now : ℕ) :
    Option (DocStore Blob Digest) := do
  let row ← st.docs.find? key
  let prior ← row.priorSnapshot
  return {
    docs := st.docs.upsert (row.rolledBack prior snapshotRev now)
    blockAuthors := affectedBlocks.foldl (fun t block => t.pop key block) st.blockAuthors }

/-- A rollback that is done makes the prior snapshot current and pops the rings it names. -/
theorem docRollback_spec {st store : DocStore Blob Digest} {key : String} {rev : Digest}
    {blocks : List BlockId} {now : ℕ} (h : st.docRollback key rev blocks now = some store) :
    (∃ info, st.docLoadMeta key = some info ∧ store.docLoad key = info.priorSnapshot) ∧
      store.blockAuthors = blocks.foldl (fun t block => t.pop key block) st.blockAuthors := by
  simp only [docRollback, Option.bind_eq_bind, Option.bind_eq_some_iff, Option.pure_def,
    Option.some.injEq] at h
  obtain ⟨row, found, prior, stored, rfl⟩ := h
  have named := (Table.find?_eq_some.1 found).2
  refine ⟨⟨row.columns.2, by rw [docLoadMeta, found, Option.map_some], ?_⟩, rfl⟩
  simp [docLoad, Table.find?_upsert, DocRow.rolledBack, named, DocRow.columns, stored]

end DocStore

end Zodia.Store
