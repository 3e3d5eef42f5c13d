import Mathlib.Data.Set.Finite.Lemmas
import Mathlib.Order.Interval.Set.OrdConnected
import Zodia.Sync.LogStore

/-!
# Pruning the operation table

`prune_older_than` of `sync/src/lib.rs` over the rows of the database. The timestamp of an
operation is in its encoded header, so every foreign header is decoded first; what is past the
cutoff is deleted by one statement with one parameter for each hash. The database refuses a
statement with too many parameters.

## Main definitions

* `OperationRow`, `pruneOlderThan`.
* `Stale`, `Unreadable` — the rows that are past the cutoff, and those that cannot be decoded.
* `PrunesExactly` — what pruning promises of the rows.
* `Contiguous`, `LeavesSuffixes` — what log sync needs of the logs.

## Main results

* `prunesExactly_iff` — pruning keeps the first promise while the statement is small enough.
* `leavesSuffixes_iff` — it keeps the second one while in each log the stale rows come first.
* `represents_pruneOlderThan` — where it succeeds it prunes the store of the node.
-/

namespace Zodia.Sync

open Lib

variable {Digest Args : Type}

/-! ## The table -/

/-- A row of `operations_v1`. -/
structure OperationRow (Digest : Type) where
  hash : Digest
  verifyingKey : Bytes32
  logId : UInt64
  seqNum : ℕ
  header : Bytes

abbrev OperationRows (Digest : Type) := Table fun row : OperationRow Digest => row.hash

inductive SyncError where
  | pandaStore (message : String)
  deriving DecidableEq

/-- How many parameters a statement may have. -/
def maxVariables : ℕ := 32766

section Code

variable (decodeHeader : Bytes → Except String (Header Digest Args)) (keep : Bytes32) (cutoff : ℕ)

/-- The hashes of the candidates past the cutoff. Circle operations carry no timestamp. -/
def staleHashes : List (OperationRow Digest) → Except SyncError (List Digest)
  | [] => .ok []
  | row :: candidates =>
    match decodeHeader row.header with
    | .error e => .error (.pandaStore ("failed to decode stored header: " ++ e))
    | .ok header => do
      let later ← staleHashes candidates
      match header.extensions.timestamp with
      | none => .ok later
      | some timestamp => .ok (if timestamp < cutoff then row.hash :: later else later)

/-- `DELETE FROM operations_v1 WHERE hash IN (…)`, with the number of rows affected. -/
def deleteHashes [DecidableEq Digest] (rows : OperationRows Digest) (hashes : List Digest) :
    Except SyncError ℕ × OperationRows Digest :=
  if maxVariables < hashes.length then (.error (.pandaStore "too many SQL variables"), rows)
  else
    (.ok (rows.rows.countP fun row => row.hash ∈ hashes),
      rows.filter fun row => row.hash ∉ hashes)

/-- The reply and the rows that are left. -/
def pruneOlderThan [DecidableEq Digest] (rows : OperationRows Digest) :
    Except SyncError ℕ × OperationRows Digest :=
  let candidates := rows.rows.filter fun row => row.verifyingKey ≠ keep
  match staleHashes decodeHeader cutoff candidates with
  | .error e => (.error e, rows)
  | .ok hashes => if hashes = [] then (.ok 0, rows) else deleteHashes rows hashes

/-! ## What is selected -/

/-- The header can be decoded and carries a timestamp before the cutoff. -/
def past (row : OperationRow Digest) : Bool :=
  match decodeHeader row.header with
  | .error _ => false
  | .ok header =>
    match header.extensions.timestamp with
    | none => false
    | some timestamp => timestamp < cutoff

/-- A row of another author past the cutoff. -/
def stale (row : OperationRow Digest) : Bool :=
  row.verifyingKey ≠ keep && past decodeHeader cutoff row

/-- A row of another author whose header cannot be decoded. -/
def Unreadable (row : OperationRow Digest) : Prop :=
  row.verifyingKey ≠ keep ∧ ∃ e, decodeHeader row.header = .error e

end Code

section Selection

variable {decodeHeader : Bytes → Except String (Header Digest Args)} {keep : Bytes32} {cutoff : ℕ}
  {rows : OperationRows Digest}

theorem past_iff {row : OperationRow Digest} : past decodeHeader cutoff row = true ↔
    ∃ header timestamp, decodeHeader row.header = .ok header ∧
      header.extensions.timestamp = some timestamp ∧ timestamp < cutoff := by
  unfold past
  split
  · next e failed => simp [failed]
  · next header decoded =>
    split
    · next none => simp [decoded, none]
    · next timestamp some => simp [decoded, some]

theorem stale_iff {row : OperationRow Digest} : stale decodeHeader keep cutoff row = true ↔
    row.verifyingKey ≠ keep ∧ ∃ header timestamp, decodeHeader row.header = .ok header ∧
      header.extensions.timestamp = some timestamp ∧ timestamp < cutoff := by
  rw [stale, Bool.and_eq_true, decide_eq_true_eq, past_iff]

/-- Own operations and circle operations are never past the cutoff. -/
theorem foreign_interp_of_stale {row : OperationRow Digest}
    (old : stale decodeHeader keep cutoff row = true) : row.verifyingKey ≠ keep ∧
      ∃ header, decodeHeader row.header = .ok header ∧ header.extensions.isCircle = false := by
  obtain ⟨foreign, header, timestamp, decoded, stamp, -⟩ := stale_iff.1 old
  refine ⟨foreign, header, decoded, ?_⟩
  cases extensions : header.extensions with
  | interp _ => rfl
  | circle args =>
    rw [extensions] at stamp
    cases stamp

theorem staleHashes_of_readable {candidates : List (OperationRow Digest)}
    (readable : ∀ row ∈ candidates, ∃ header, decodeHeader row.header = .ok header) :
    staleHashes decodeHeader cutoff candidates =
      .ok ((candidates.filter (past decodeHeader cutoff)).map OperationRow.hash) := by
  induction candidates with
  | nil => rfl
  | cons row candidates ih =>
    obtain ⟨header, decoded⟩ := readable row List.mem_cons_self
    have later := ih fun row mem => readable row (List.mem_cons_of_mem _ mem)
    simp only [staleHashes, decoded, later]
    cases stamp : header.extensions.timestamp with
    | none => simp [Except.bind, bind, past, decoded, stamp]
    | some timestamp =>
      by_cases old : timestamp < cutoff <;>
        simp [Except.bind, bind, past, decoded, stamp, old]

theorem staleHashes_of_unreadable {candidates : List (OperationRow Digest)}
    (unreadable : ∃ row ∈ candidates, ∃ e, decodeHeader row.header = .error e) :
    ∃ e, staleHashes decodeHeader cutoff candidates = .error e := by
  induction candidates with
  | nil => exact absurd unreadable (by simp)
  | cons row candidates ih =>
    cases decoded : decodeHeader row.header with
    | error e => exact ⟨_, by simp only [staleHashes, decoded]; rfl⟩
    | ok header =>
      obtain ⟨row', mem, e, failed⟩ := unreadable
      have later : row' ∈ candidates := by
        rcases List.mem_cons.1 mem with rfl | later
        · rw [decoded] at failed
          cases failed
        · exact later
      obtain ⟨e, found⟩ := ih ⟨row', later, e, failed⟩
      exact ⟨e, by simp only [staleHashes, decoded, found]; rfl⟩

theorem filter_candidates :
    (rows.rows.filter fun row => row.verifyingKey ≠ keep).filter (past decodeHeader cutoff) =
      rows.rows.filter (stale decodeHeader keep cutoff) := by
  rw [List.filter_filter]
  refine List.filter_congr fun row _ => ?_
  rw [stale, Bool.and_comm]

/-- The statement matches the rows that were selected, since a hash names one row. -/
theorem mem_staleHashes {row : OperationRow Digest} (mem : row ∈ rows) :
    row.hash ∈ (rows.rows.filter (stale decodeHeader keep cutoff)).map OperationRow.hash ↔
      stale decodeHeader keep cutoff row = true := by
  rw [List.mem_map]
  constructor
  · rintro ⟨row', selected, same⟩
    obtain ⟨mem', stale⟩ := List.mem_filter.1 selected
    rwa [Table.eq_of_key mem mem' same.symm]
  · exact fun stale => ⟨row, List.mem_filter.2 ⟨mem, stale⟩, rfl⟩

variable [DecidableEq Digest]

theorem pruneOlderThan_of_unreadable
    (unreadable : ∃ row ∈ rows, Unreadable decodeHeader keep row) :
    ∃ e, pruneOlderThan decodeHeader keep cutoff rows = (.error e, rows) := by
  obtain ⟨row, mem, foreign, failed⟩ := unreadable
  have candidate : row ∈ rows.rows.filter fun row => row.verifyingKey ≠ keep :=
    List.mem_filter.2 ⟨mem, decide_eq_true foreign⟩
  obtain ⟨e, found⟩ : ∃ e, staleHashes decodeHeader cutoff
      (rows.rows.filter fun row => row.verifyingKey ≠ keep) = .error e :=
    staleHashes_of_unreadable ⟨row, candidate, failed⟩
  exact ⟨e, by simp only [pruneOlderThan, found]⟩

/-- The statement deletes the stale rows, unless there are too many of them. -/
theorem deleteHashes_stale :
    deleteHashes rows
        ((rows.rows.filter (stale decodeHeader keep cutoff)).map OperationRow.hash) =
      if maxVariables < rows.rows.countP (stale decodeHeader keep cutoff) then
        (.error (.pandaStore "too many SQL variables"), rows)
      else
        (.ok (rows.rows.countP (stale decodeHeader keep cutoff)),
          rows.filter fun row => !stale decodeHeader keep cutoff row) := by
  have matched : ∀ row ∈ rows, decide (row.hash ∈ (rows.rows.filter
      (stale decodeHeader keep cutoff)).map OperationRow.hash) =
        stale decodeHeader keep cutoff row := by
    intro row mem
    rw [Bool.eq_iff_iff, decide_eq_true_eq]
    exact mem_staleHashes mem
  have affected : (rows.rows.countP fun row => row.hash ∈ (rows.rows.filter
      (stale decodeHeader keep cutoff)).map OperationRow.hash) =
        rows.rows.countP (stale decodeHeader keep cutoff) :=
    List.countP_congr fun row mem => by rw [matched row mem]
  have left : (rows.filter fun row => row.hash ∉ (rows.rows.filter
      (stale decodeHeader keep cutoff)).map OperationRow.hash) =
        rows.filter fun row => !stale decodeHeader keep cutoff row :=
    Table.filter_congr fun row mem => by rw [decide_not, matched row mem]
  rw [deleteHashes, affected, left, List.length_map, ← List.countP_eq_length_filter]

/-- Where every foreign header can be decoded, the size of the statement decides. -/
theorem pruneOlderThan_of_readable
    (readable : ∀ row ∈ rows, ¬ Unreadable decodeHeader keep row) :
    pruneOlderThan decodeHeader keep cutoff rows =
      if maxVariables < rows.rows.countP (stale decodeHeader keep cutoff) then
        (.error (.pandaStore "too many SQL variables"), rows)
      else
        (.ok (rows.rows.countP (stale decodeHeader keep cutoff)),
          rows.filter fun row => !stale decodeHeader keep cutoff row) := by
  have decodes : ∀ row ∈ rows.rows.filter fun row => row.verifyingKey ≠ keep,
      ∃ header, decodeHeader row.header = .ok header := by
    intro row candidate
    obtain ⟨mem, foreign⟩ := List.mem_filter.1 candidate
    cases decoded : decodeHeader row.header with
    | error e => exact absurd ⟨of_decide_eq_true foreign, e, decoded⟩ (readable row mem)
    | ok header => exact ⟨header, rfl⟩
  have selected : staleHashes decodeHeader cutoff _ = .ok _ := staleHashes_of_readable decodes
  rw [filter_candidates] at selected
  simp only [pruneOlderThan, selected]
  split
  · -- Nothing is selected, and no statement is run.
    next none =>
    rw [List.map_eq_nil_iff] at none
    have count : rows.rows.countP (stale decodeHeader keep cutoff) = 0 := by
      rw [List.countP_eq_length_filter, none]
      rfl
    have all : (rows.filter fun row => !stale decodeHeader keep cutoff row) = rows :=
      Table.filter_eq_self fun row mem => by simpa using List.filter_eq_nil_iff.1 none row mem
    rw [count, all]
    rfl
  · exact deleteHashes_stale

end Selection

/-! ## A store of one peer -/

def ownKey : Bytes32 := Vector.replicate 32 1
def peerKey : Bytes32 := Vector.replicate 32 2

/-- A codec of headers of the peer: the timestamp, then one byte for each earlier operation. -/
def decodeStamped : Bytes → Except String (Header ℕ Unit)
  | [] => .error "unexpected end of file"
  | timestamp :: earlier =>
    .ok ⟨peerKey, 0, none, earlier.length, none, .interp timestamp.toNat⟩

/-- An operation of the peer in log 0. -/
def stampedRow (seqNum : ℕ) (timestamp : UInt8) : OperationRow ℕ :=
  ⟨seqNum, peerKey, 0, seqNum, timestamp :: List.replicate seqNum 0⟩

/-- The hash and the sequence number of an operation are its place in the log. -/
theorem map_mapIdx_stampedRow {f : OperationRow ℕ → ℕ} (place : ∀ n t, f (stampedRow n t) = n)
    (timestamps : List UInt8) :
    (timestamps.mapIdx stampedRow).map f = List.range timestamps.length :=
  List.ext_getElem (by simp) (by simp [place])

/-- The log of the peer, an operation for each timestamp. -/
def stampedRows (timestamps : List UInt8) : OperationRows ℕ where
  rows := timestamps.mapIdx stampedRow
  nodup := by
    rw [map_mapIdx_stampedRow fun _ _ => rfl]
    exact List.nodup_range

theorem mem_stampedRows {timestamps : List UInt8} {row : OperationRow ℕ} :
    row ∈ stampedRows timestamps ↔
      ∃ n, ∃ h : n < timestamps.length, stampedRow n timestamps[n] = row := List.mem_mapIdx

theorem stampedRows_readable (timestamps : List UInt8) :
    ∀ row ∈ stampedRows timestamps, ¬ Unreadable decodeStamped ownKey row := by
  rintro row mem ⟨-, e, failed⟩
  obtain ⟨n, h, rfl⟩ := mem_stampedRows.1 mem
  cases failed

/-- Operations of the peer with timestamp 0 are past every later cutoff. -/
theorem countP_stale_stampedRows (n : ℕ) :
    (stampedRows (List.replicate n 0)).rows.countP (stale decodeStamped ownKey 1) = n := by
  have all : ∀ row ∈ (stampedRows (List.replicate n 0)).rows,
      stale decodeStamped ownKey 1 row = true := by
    intro row mem
    obtain ⟨seqNum, h, rfl⟩ := mem_stampedRows.1 mem
    rw [List.getElem_replicate]
    exact stale_iff.2 ⟨show peerKey ≠ ownKey by decide, _, 0, rfl, rfl, Nat.one_pos⟩
  rw [List.countP_eq_length.2 all, stampedRows, List.length_mapIdx, List.length_replicate]

/-! ## The first promise -/

section Promise

variable [DecidableEq Digest] (decodeHeader : Bytes → Except String (Header Digest Args))
  (keep : Bytes32) (cutoff : ℕ) (rows : OperationRows Digest)

/-- Either what is past the cutoff is gone and counted, and nothing else; or some header cannot
be decoded, and nothing is gone. -/
def PrunesExactly (reply : Except SyncError ℕ × OperationRows Digest) : Prop :=
  (reply.1 = .ok (rows.rows.countP (stale decodeHeader keep cutoff)) ∧
    ∀ row, row ∈ reply.2 ↔ row ∈ rows ∧ ¬ stale decodeHeader keep cutoff row = true) ∨
  ((∃ e, reply.1 = .error e) ∧ reply.2 = rows ∧ ∃ row ∈ rows, Unreadable decodeHeader keep row)

/-- **Pruning keeps the promise if and only if some foreign header cannot be decoded or the
operations past the cutoff fit into one statement.** -/
theorem prunesExactly_iff :
    PrunesExactly decodeHeader keep cutoff rows (pruneOlderThan decodeHeader keep cutoff rows) ↔
      (∃ row ∈ rows, Unreadable decodeHeader keep row) ∨
        rows.rows.countP (stale decodeHeader keep cutoff) ≤ maxVariables := by
  by_cases unreadable : ∃ row ∈ rows, Unreadable decodeHeader keep row
  · obtain ⟨e, pruned⟩ : ∃ e, pruneOlderThan decodeHeader keep cutoff rows = (.error e, rows) :=
      pruneOlderThan_of_unreadable unreadable
    rw [pruned]
    exact iff_of_true (.inr ⟨⟨e, rfl⟩, rfl, unreadable⟩) (.inl unreadable)
  · have readable : ∀ row ∈ rows, ¬ Unreadable decodeHeader keep row :=
      fun row mem failed => unreadable ⟨row, mem, failed⟩
    rw [pruneOlderThan_of_readable readable]
    split_ifs with large
    · refine iff_of_false ?_ ?_
      · rintro (⟨ok, -⟩ | ⟨-, -, failed⟩)
        · cases ok
        · exact unreadable failed
      · rintro (failed | small)
        · exact unreadable failed
        · exact absurd large (Nat.not_lt.2 small)
    · refine iff_of_true (.inl ⟨rfl, fun row => ?_⟩) (.inr (Nat.not_lt.1 large))
      rw [Table.mem_filter, Bool.not_eq_true', Bool.eq_false_iff]

end Promise

/-- With one operation too many nothing is pruned. -/
theorem pruning_refuses_many :
    ¬ PrunesExactly decodeStamped ownKey 1 (stampedRows (List.replicate 32767 0))
      (pruneOlderThan decodeStamped ownKey 1 (stampedRows (List.replicate 32767 0))) := by
  have large : maxVariables < (stampedRows (List.replicate 32767 0)).rows.countP
      (stale decodeStamped ownKey 1) := by
    rw [countP_stale_stampedRows, maxVariables]
    omega
  rw [pruneOlderThan_of_readable (stampedRows_readable _), if_pos large]
  rintro (⟨ok, -⟩ | ⟨-, -, row, mem, failed⟩)
  · cases ok
  · exact stampedRows_readable _ row mem failed

/-! ## Logs -/

/-- The rows of a log. -/
def OperationRows.log (rows : OperationRows Digest) (author : Bytes32) (logId : UInt64) :
    List (OperationRow Digest) :=
  rows.rows.filter fun row => row.verifyingKey = author ∧ row.logId = logId

/-- One operation for each sequence number of a run. -/
structure Contiguous (log : List (OperationRow Digest)) : Prop where
  nodup : (log.map OperationRow.seqNum).Nodup
  connected : {n | n ∈ log.map OperationRow.seqNum}.OrdConnected

/-- `left` is empty, or a run that ends at the last operation of `log`. -/
def EndsAlike (log left : List (OperationRow Digest)) : Prop :=
  left = [] ∨ Contiguous left ∧ ∃ last ∈ left, last ∈ log ∧ ∀ row ∈ log, row.seqNum ≤ last.seqNum

/-- Each log of another author is left so. -/
def LeavesSuffixes (keep : Bytes32) (rows rows' : OperationRows Digest) : Prop :=
  ∀ author, author ≠ keep → ∀ logId, EndsAlike (rows.log author logId) (rows'.log author logId)

/-- What is before an operation past the cutoff, in its log, is past the cutoff, too. -/
def StaleFirst (decodeHeader : Bytes → Except String (Header Digest Args)) (keep : Bytes32)
    (cutoff : ℕ) (rows : OperationRows Digest) : Prop :=
  ∀ row ∈ rows, ∀ earlier ∈ rows, earlier.verifyingKey = row.verifyingKey →
    earlier.logId = row.logId → earlier.seqNum < row.seqNum →
      stale decodeHeader keep cutoff row = true → stale decodeHeader keep cutoff earlier = true

/-- Part of a finite run is a run up to the same end exactly if it holds all that is above it. -/
theorem connected_to_end_iff {α : Type*} [LinearOrder α] {S T : Set α} (sub : T ⊆ S)
    (fin : S.Finite) (connected : S.OrdConnected) (ne : T.Nonempty) :
    (T.OrdConnected ∧ ∃ m ∈ T, ∀ n ∈ S, n ≤ m) ↔ ∀ a ∈ T, ∀ b ∈ S, a ≤ b → b ∈ T := by
  constructor
  · rintro ⟨run, m, mem, greatest⟩ a ha b hb le
    exact run.out ha mem ⟨le, greatest b hb⟩
  · intro above
    refine ⟨⟨fun a ha c hc b between => ?_⟩, ?_⟩
    · exact above a ha b (connected.out (sub ha) (sub hc) between) between.1
    · obtain ⟨a, ha⟩ := ne
      obtain ⟨m, mem, greatest⟩ := Set.exists_max_image S id fin ⟨a, sub ha⟩
      exact ⟨m, above a ha m mem (greatest a (sub ha)), greatest⟩

/-- Rows with a property are left as a run to the same end exactly if what follows such a row
has the property, too. -/
theorem endsAlike_filter_iff {log : List (OperationRow Digest)} (run : Contiguous log)
    (p : OperationRow Digest → Bool) :
    EndsAlike log (log.filter p) ↔
      ∀ row ∈ log, ∀ earlier ∈ log, earlier.seqNum < row.seqNum → p earlier = true →
        p row = true := by
  by_cases empty : log.filter p = []
  · refine iff_of_true (.inl empty) fun row _ earlier mem _ kept => ?_
    exact absurd kept (List.filter_eq_nil_iff.1 empty earlier mem)
  have left {row : OperationRow Digest} (mem : row ∈ log) :
      row.seqNum ∈ (log.filter p).map OperationRow.seqNum ↔ p row = true := by
    rw [List.mem_map]
    constructor
    · rintro ⟨row', kept, same⟩
      obtain ⟨mem', kept⟩ := List.mem_filter.1 kept
      rwa [← List.inj_on_of_nodup_map run.nodup mem' mem same]
    · exact fun kept => ⟨row, List.mem_filter.2 ⟨mem, kept⟩, rfl⟩
  have sub : {n | n ∈ (log.filter p).map OperationRow.seqNum} ⊆
      {n | n ∈ log.map OperationRow.seqNum} := (List.filter_sublist.map _).subset
  have ne : {n | n ∈ (log.filter p).map OperationRow.seqNum}.Nonempty := by
    obtain ⟨row, mem⟩ := List.exists_mem_of_ne_nil _ empty
    exact ⟨row.seqNum, List.mem_map_of_mem mem⟩
  have above := connected_to_end_iff sub (List.finite_toSet _) run.connected ne
  constructor
  · rintro (none | ⟨run', last, kept, -, greatest⟩)
    · exact absurd none empty
    · intro row mem earlier mem' lt kept'
      have ends : ∀ n ∈ log.map OperationRow.seqNum, n ≤ last.seqNum := by
        intro n image
        obtain ⟨row, mem, rfl⟩ := List.mem_map.1 image
        exact greatest row mem
      refine (left mem).1 (above.1 ⟨run'.connected, _, List.mem_map_of_mem kept, ends⟩ _
        ((left mem').2 kept') _ (List.mem_map_of_mem mem) lt.le)
  · intro follows
    obtain ⟨connected, n, image, greatest⟩ := above.2 fun a ha b hb le => by
      obtain ⟨earlier, kept, rfl⟩ := List.mem_map.1 ha
      obtain ⟨row, mem, rfl⟩ := List.mem_map.1 hb
      obtain ⟨mem', kept⟩ := List.mem_filter.1 kept
      rcases lt_or_eq_of_le le with lt | same
      · exact (left mem).2 (follows row mem earlier mem' lt kept)
      · exact same ▸ ha
    obtain ⟨last, kept, rfl⟩ := List.mem_map.1 image
    refine .inr ⟨⟨run.nodup.sublist (List.filter_sublist.map _), connected⟩, last, kept,
      (List.mem_filter.1 kept).1, fun row mem => ?_⟩
    exact greatest _ (List.mem_map_of_mem mem)

theorem EndsAlike.refl {log : List (OperationRow Digest)} (run : Contiguous log) :
    EndsAlike log log := by
  have all := (endsAlike_filter_iff run fun _ => true).2 fun _ _ _ _ _ _ => rfl
  rwa [List.filter_true] at all

theorem mem_log {rows : OperationRows Digest} {row : OperationRow Digest}
    {author : Bytes32} {logId : UInt64} :
    row ∈ rows.log author logId ↔ row ∈ rows ∧ row.verifyingKey = author ∧ row.logId = logId := by
  rw [OperationRows.log, List.mem_filter, decide_eq_true_eq, Table.mem_rows]

theorem log_filter (rows : OperationRows Digest) (keep : OperationRow Digest → Bool)
    (author : Bytes32) (logId : UInt64) :
    OperationRows.log (rows.filter keep) author logId = (rows.log author logId).filter keep := by
  rw [OperationRows.log, OperationRows.log, List.filter_filter]
  change (rows.rows.filter keep).filter _ = _
  rw [List.filter_filter]
  exact List.filter_congr fun row _ => Bool.and_comm _ _

/-! ## The second promise -/

section Promise

variable [DecidableEq Digest] {decodeHeader : Bytes → Except String (Header Digest Args)}
  {keep : Bytes32} {cutoff : ℕ} {rows : OperationRows Digest}

/-- **Where the logs of others are runs, pruning leaves runs to the same ends if and only if it
fails or the operations past the cutoff come first in their logs.** -/
theorem leavesSuffixes_iff
    (runs : ∀ author, author ≠ keep → ∀ logId, Contiguous (rows.log author logId)) :
    LeavesSuffixes keep rows (pruneOlderThan decodeHeader keep cutoff rows).2 ↔
      (∃ row ∈ rows, Unreadable decodeHeader keep row) ∨
        maxVariables < rows.rows.countP (stale decodeHeader keep cutoff) ∨
          StaleFirst decodeHeader keep cutoff rows := by
  have unchanged : LeavesSuffixes keep rows rows :=
    fun author foreign logId => EndsAlike.refl (runs author foreign logId)
  by_cases unreadable : ∃ row ∈ rows, Unreadable decodeHeader keep row
  · obtain ⟨e, pruned⟩ : ∃ e, pruneOlderThan decodeHeader keep cutoff rows = (.error e, rows) :=
      pruneOlderThan_of_unreadable unreadable
    rw [pruned]
    exact iff_of_true unchanged (.inl unreadable)
  rw [or_iff_right unreadable, pruneOlderThan_of_readable fun row mem failed =>
    unreadable ⟨row, mem, failed⟩]
  split_ifs with large
  · exact iff_of_true unchanged (.inl large)
  rw [or_iff_right large]
  constructor
  · intro leaves row mem earlier mem' author log lt old
    have foreign : row.verifyingKey ≠ keep := (stale_iff.1 old).1
    have ends := leaves row.verifyingKey foreign row.logId
    rw [log_filter, endsAlike_filter_iff (runs _ foreign _)] at ends
    by_contra fresh
    have kept := ends row (mem_log.2 ⟨mem, rfl, rfl⟩) earlier (mem_log.2 ⟨mem', author, log⟩) lt
      (by simpa using fresh)
    rw [old] at kept
    cases kept
  · intro first author foreign logId
    rw [log_filter, endsAlike_filter_iff (runs _ foreign _)]
    intro row mem earlier mem' lt kept
    obtain ⟨inRows, rfl, rfl⟩ := mem_log.1 mem
    obtain ⟨inRows', author, log⟩ := mem_log.1 mem'
    by_contra old
    have stale' := first row inRows earlier inRows' author log lt (by simpa using old)
    rw [stale'] at kept
    cases kept

end Promise

theorem stampedRows_contiguous (timestamps : List UInt8) (author : Bytes32) (logId : UInt64) :
    Contiguous ((stampedRows timestamps).log author logId) := by
  have seqNums : (timestamps.mapIdx stampedRow).map OperationRow.seqNum =
      List.range timestamps.length :=
    map_mapIdx_stampedRow (fun _ _ => rfl) timestamps
  have same : ∀ row ∈ (stampedRows timestamps).rows,
      row.verifyingKey = peerKey ∧ row.logId = 0 := by
    intro row mem
    obtain ⟨n, h, rfl⟩ := mem_stampedRows.1 mem
    exact ⟨rfl, rfl⟩
  by_cases own : peerKey = author ∧ 0 = logId
  · obtain ⟨rfl, rfl⟩ := own
    have all : (stampedRows timestamps).log peerKey 0 = timestamps.mapIdx stampedRow :=
      List.filter_eq_self.2 fun row mem => decide_eq_true (same row mem)
    rw [all]
    constructor
    · rw [seqNums]
      exact List.nodup_range
    · rw [seqNums]
      refine ⟨fun a _ c below b between => ?_⟩
      exact List.mem_range.2 (between.2.trans_lt (List.mem_range.1 below))
  · have none : (stampedRows timestamps).log author logId = [] := by
      refine List.filter_eq_nil_iff.2 fun row mem matched => own ?_
      obtain ⟨rfl, rfl⟩ := of_decide_eq_true matched
      exact ⟨(same row mem).1.symm, (same row mem).2.symm⟩
    rw [none]
    exact ⟨List.nodup_nil, ⟨fun a mem => absurd mem List.not_mem_nil⟩⟩

/-- A clock that runs forward leaves a run to the same end. -/
theorem leavesSuffixes_forward : LeavesSuffixes ownKey (stampedRows [3, 5, 20])
    (pruneOlderThan decodeStamped ownKey 8 (stampedRows [3, 5, 20])).2 := by
  refine (leavesSuffixes_iff fun author _ logId => stampedRows_contiguous _ author logId).2
    (.inr (.inr ?_))
  change ∀ row ∈ (stampedRows [3, 5, 20]).rows, ∀ earlier ∈ (stampedRows [3, 5, 20]).rows, _
  decide

/-- A clock set back between two operations leaves a hole. -/
theorem pruning_leaves_hole :
    (∀ author, author ≠ ownKey → ∀ logId,
      Contiguous ((stampedRows [10, 5, 20]).log author logId)) ∧
    ¬ LeavesSuffixes ownKey (stampedRows [10, 5, 20])
      (pruneOlderThan decodeStamped ownKey 8 (stampedRows [10, 5, 20])).2 := by
  refine ⟨fun author _ logId => stampedRows_contiguous _ author logId, fun leaves => ?_⟩
  have left : ((pruneOlderThan decodeStamped ownKey 8 (stampedRows [10, 5, 20])).2.log
      peerKey 0).map OperationRow.seqNum = [0, 2] := by decide
  rcases leaves peerKey (by decide) 0 with none | ⟨run, -⟩
  · rw [none] at left
    cases left
  · have connected := run.connected
    rw [left] at connected
    have hole := connected.out (show 0 ∈ [0, 2] by decide) (show 2 ∈ [0, 2] by decide)
      (show 1 ∈ Set.Icc 0 2 from ⟨by decide, by decide⟩)
    revert hole
    simp

/-! ## The store of the node -/

/-- The row of an entry: its columns, and its header encoded. -/
structure RowOf (decodeHeader : Bytes → Except String (Header Digest Args))
    (row : OperationRow Digest) (e : LogEntry Digest Args) : Prop where
  hash : row.hash = e.op.hash
  verifyingKey : row.verifyingKey = e.author
  logId : row.logId = e.logId
  seqNum : row.seqNum = e.op.header.seqNum
  header : decodeHeader row.header = .ok e.op.header

def Represents (decodeHeader : Bytes → Except String (Header Digest Args))
    (rows : OperationRows Digest) (st : LogStore Digest Args) : Prop :=
  List.Forall₂ (RowOf decodeHeader) rows.rows st.operations.rows

theorem decodes_of_rowsOf {decodeHeader : Bytes → Except String (Header Digest Args)}
    {rows : List (OperationRow Digest)} {entries : List (LogEntry Digest Args)}
    (rowsOf : List.Forall₂ (RowOf decodeHeader) rows entries) :
    ∀ row ∈ rows, ∃ header, decodeHeader row.header = .ok header := by
  induction rowsOf with
  | nil => exact fun row mem => absurd mem List.not_mem_nil
  | cons rowOf _ ih =>
    intro row mem
    rcases List.mem_cons.1 mem with rfl | later
    · exact ⟨_, rowOf.header⟩
    · exact ih row later

/-- A statement that is small enough prunes the store that the rows represent. -/
theorem represents_pruneOlderThan [DecidableEq Digest]
    {decodeHeader : Bytes → Except String (Header Digest Args)} {keep : Bytes32} {cutoff : ℕ}
    {rows : OperationRows Digest} {st : LogStore Digest Args}
    (represents : Represents decodeHeader rows st)
    (small : rows.rows.countP (stale decodeHeader keep cutoff) ≤ maxVariables) :
    Represents decodeHeader (pruneOlderThan decodeHeader keep cutoff rows).2
      (st.pruneOlderThan keep cutoff) := by
  have readable : ∀ row ∈ rows, ¬ Unreadable decodeHeader keep row := by
    rintro row mem ⟨-, e, failed⟩
    obtain ⟨header, decoded⟩ := decodes_of_rowsOf represents row mem
    rw [decoded] at failed
    cases failed
  rw [pruneOlderThan_of_readable readable, if_neg (Nat.not_lt.2 small)]
  refine List.rel_filter (fun row e rowOf => ?_) represents
  simp only [stale, past, rowOf.header, rowOf.verifyingKey]
  cases e.op.header.extensions.timestamp <;> simp [Bool.or_comm]

end Zodia.Sync
