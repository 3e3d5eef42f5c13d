import Zodia.Lib.Primitives
import Zodia.Lib.Table
import Mathlib.Data.List.MinMax

/-!
# The operation store

What the sync node keeps in its database: the operations with the log each was
inserted into, and the associations of topics with the logs of their authors. Both
kinds of traffic, interpretations and circles, share the operation type and the store.

`insertOperation`, `associate` and `getLatestEntry` are calls of the storage library, as it
documents them: a hash is stored once and stays in its log, an association stays, and the latest
entry of a log has the greatest sequence number.
-/

namespace Zodia.Sync

open Lib

variable {Digest Args : Type}

/-- The extension of a header says which traffic the operation belongs to. -/
inductive ZodiaExtensions (Args : Type) where
  | interp (timestamp : ℕ)
  | circle (args : Args)
  deriving DecidableEq

def ZodiaExtensions.isCircle : ZodiaExtensions Args → Bool
  | .interp _ => false
  | .circle _ => true

theorem ZodiaExtensions.exists_timestamp {x : ZodiaExtensions Args} (interp : x.isCircle = false) :
    ∃ timestamp, x = .interp timestamp := by
  cases x with
  | interp timestamp => exact ⟨timestamp, rfl⟩
  | circle args => cases interp

/-- The `Timestamp` extension; circle operations carry none. -/
def ZodiaExtensions.timestamp : ZodiaExtensions Args → Option ℕ
  | .interp timestamp => some timestamp
  | .circle _ => none

structure Header (Digest Args : Type) where
  verifyingKey : Bytes32
  payloadSize : ℕ
  payloadHash : Option Digest
  seqNum : ℕ
  backlink : Option Digest
  extensions : ZodiaExtensions Args
  deriving DecidableEq

structure Operation (Digest Args : Type) where
  hash : Digest
  header : Header Digest Args
  body : Option Bytes
  deriving DecidableEq

/-- An operation and the log it was inserted into. -/
structure LogEntry (Digest Args : Type) where
  op : Operation Digest Args
  logId : UInt64

def LogEntry.author (e : LogEntry Digest Args) : Bytes32 := e.op.header.verifyingKey
def LogEntry.isCircle (e : LogEntry Digest Args) : Bool := e.op.header.extensions.isCircle

/-- The operations by hash, and the logs each topic leads to. -/
structure LogStore (Digest Args : Type) where
  operations : Table fun e : LogEntry Digest Args => e.op.hash
  topics : List (Digest × Bytes32 × UInt64)

def LogStore.empty : LogStore Digest Args := ⟨Table.empty, []⟩

section LogStore

variable [DecidableEq Digest] (st : LogStore Digest Args)

/-- An operation that is present already is not inserted again. -/
def LogStore.insertOperation (op : Operation Digest Args) (logId : UInt64) :
    LogStore Digest Args :=
  { st with operations := st.operations.insertOrIgnore ⟨op, logId⟩ }

/-- Make the log of `author` discoverable on `topic`. -/
def LogStore.associate (topic : Digest) (author : Bytes32) (logId : UInt64) :
    LogStore Digest Args :=
  { st with topics := (topic, author, logId) :: st.topics }

/-- The entry of a log with the greatest sequence number. -/
def LogStore.getLatestEntry (author : Bytes32) (logId : UInt64) : Option (Operation Digest Args) :=
  ((st.operations.rows.filter fun e => e.author = author ∧ e.logId = logId).argmax
    fun e => e.op.header.seqNum).map LogEntry.op

/-- Insert an operation and associate its log, in one transaction. -/
def LogStore.storeAndAssociate (topic : Digest) (author : Bytes32) (logId : UInt64)
    (op : Operation Digest Args) : LogStore Digest Args :=
  (st.insertOperation op logId).associate topic author logId

/-- Delete the operations of other authors that carry a timestamp before `cutoff`. -/
def LogStore.pruneOlderThan (keep : Bytes32) (cutoff : ℕ) : LogStore Digest Args :=
  { st with operations := st.operations.filter fun e =>
      e.author = keep || match e.op.header.extensions.timestamp with
        | none => true
        | some timestamp => cutoff ≤ timestamp }

/-- The entries a peer is handed that syncs `topic`. -/
def LogStore.Served (topic : Digest) (e : LogEntry Digest Args) : Prop :=
  e ∈ st.operations ∧ (topic, e.author, e.logId) ∈ st.topics

end LogStore

section Entries

variable {st : LogStore Digest Args} {logId : UInt64} {e : LogEntry Digest Args}

/-- An insert adds at most its own entry. -/
theorem LogStore.mem_insertOperation [DecidableEq Digest] {op : Operation Digest Args}
    (h : e ∈ (st.insertOperation op logId).operations) : e ∈ st.operations ∨ e = ⟨op, logId⟩ :=
  (Table.mem_insertOrIgnore.1 h).imp_right And.left

/-- Pruning removes entries and keeps every association. -/
theorem LogStore.mem_pruneOlderThan {keep : Bytes32} {cutoff : ℕ}
    (h : e ∈ (st.pruneOlderThan keep cutoff).operations) : e ∈ st.operations :=
  (Table.mem_filter.1 h).1

end Entries

end Zodia.Sync
