import Zodia.Sync.LogSeparation

/-!
# The node's own logs

Publishing and forging both append to logs of the node's own key: each reads the latest entry,
continues its sequence number and links to its hash. Restarts, pruning and the operations of
other authors fall in between. A log of the node stays a chain because nothing but an append
touches it, and an append extends a chain by its next link.

## Main definitions

* `ownEntries` — the entries of one log, in the order they were inserted.
* `IsChain` — sequence numbers `0` to `n - 1`, each entry linked to the one before it.
-/

namespace Zodia.Sync

open Lib

variable {Digest Args : Type}

/-- The entries of the log `logId` of `author`. -/
def ownEntries (st : LogStore Digest Args) (author : Bytes32) (logId : UInt64) :
    List (LogEntry Digest Args) :=
  st.operations.rows.filter fun e => e.author = author ∧ e.logId = logId

/-- The log holds the sequence numbers `0` to `n - 1`, each once, and every entry links to the
hash of the one before it. -/
structure IsChain (st : LogStore Digest Args) (author : Bytes32) (logId : UInt64) : Prop where
  seqNums : ∃ n, ((ownEntries st author logId).map fun e => e.op.header.seqNum).Perm (List.range n)
  linked : ∀ e ∈ ownEntries st author logId, ∀ e' ∈ ownEntries st author logId,
    e'.op.header.seqNum = e.op.header.seqNum + 1 → e'.op.header.backlink = some e.op.hash

/-- A chain in the order of its entries, with hashes that are those of the headers. -/
structure Chained (H : Hashes Digest Args) (l : List (LogEntry Digest Args)) : Prop where
  seqNums : (l.map fun e => e.op.header.seqNum) = List.range l.length
  hashes : ∀ e ∈ l, e.op.hash = H.header e.op.header
  linked : ∀ e ∈ l, ∀ e' ∈ l, e'.op.header.seqNum = e.op.header.seqNum + 1 →
    e'.op.header.backlink = some e.op.hash

section Chained

variable {H : Hashes Digest Args} {l : List (LogEntry Digest Args)}

theorem Chained.nil : Chained H ([] : List (LogEntry Digest Args)) :=
  ⟨rfl, by simp, by simp⟩

theorem Chained.seqNum_lt (h : Chained H l) {e : LogEntry Digest Args} (he : e ∈ l) :
    e.op.header.seqNum < l.length := by
  have : e.op.header.seqNum ∈ l.map fun e => e.op.header.seqNum := List.mem_map_of_mem he
  rwa [h.seqNums, List.mem_range] at this

/-- An entry is determined by its sequence number. -/
theorem Chained.eq_of_seqNum (h : Chained H l) {e e' : LogEntry Digest Args} (he : e ∈ l)
    (he' : e' ∈ l) (same : e.op.header.seqNum = e'.op.header.seqNum) : e = e' := by
  have nodup : (l.map fun e => e.op.header.seqNum).Nodup := h.seqNums ▸ List.nodup_range
  exact List.inj_on_of_nodup_map nodup he he' same

/-- The next link: the next sequence number, linked to the last entry if there is one. -/
theorem Chained.concat (h : Chained H l) {op : Operation Digest Args} {logId : UInt64}
    (hash : op.hash = H.header op.header) (seqNum : op.header.seqNum = l.length)
    (backlink : ∀ e ∈ l, e.op.header.seqNum + 1 = l.length →
      op.header.backlink = some (H.header e.op.header)) : Chained H (l ++ [⟨op, logId⟩]) where
  seqNums := by simp [h.seqNums, seqNum, List.range_succ]
  hashes e he := by
    rcases List.mem_append.1 he with old | new
    · exact h.hashes e old
    · rw [List.mem_singleton.1 new]
      exact hash
  linked e he e' he' next := by
    rcases List.mem_append.1 he' with old' | new'
    · have bound := h.seqNum_lt old'
      rcases List.mem_append.1 he with old | new
      · exact h.linked e old e' old' next
      · -- nothing follows the new entry
        obtain rfl := List.mem_singleton.1 new
        simp only [seqNum] at next
        omega
    · obtain rfl := List.mem_singleton.1 new'
      rcases List.mem_append.1 he with old | new
      · rw [h.hashes e old]
        exact backlink e old (next.symm.trans seqNum)
      · obtain rfl := List.mem_singleton.1 new
        omega

end Chained

/-! ## The latest entry -/

section Latest

variable {H : Hashes Digest Args} {me : Bytes32} {logId : UInt64}

/-- The header of an append continues the chain of its log. -/
theorem nextHeader_continues {nd : Node Digest Args} (h : Chained H (ownEntries nd.store me logId))
    (payload : Option Bytes) (extensions : ZodiaExtensions Args) :
    (nd.nextHeader H me logId payload extensions).seqNum = (ownEntries nd.store me logId).length ∧
      ∀ e ∈ ownEntries nd.store me logId,
        e.op.header.seqNum + 1 = (ownEntries nd.store me logId).length →
        (nd.nextHeader H me logId payload extensions).backlink = some (H.header e.op.header) := by
  have latest : nd.store.getLatestEntry me logId =
      ((ownEntries nd.store me logId).argmax fun e => e.op.header.seqNum).map LogEntry.op := rfl
  simp only [Node.nextHeader, latest]
  cases top : (ownEntries nd.store me logId).argmax fun e => e.op.header.seqNum with
  | none =>
    have empty := List.argmax_eq_none.1 top
    simp [empty]
  | some e =>
    have he : e ∈ ownEntries nd.store me logId := List.argmax_mem top
    have last : e.op.header.seqNum + 1 = (ownEntries nd.store me logId).length := by
      have below := h.seqNum_lt he
      have number : (ownEntries nd.store me logId).length - 1 ∈
          (ownEntries nd.store me logId).map fun e => e.op.header.seqNum := by
        rw [h.seqNums, List.mem_range]
        omega
      obtain ⟨e', he', top'⟩ := List.mem_map.1 number
      have above := List.le_of_mem_argmax he' top
      simp only [top'] at above
      omega
    refine ⟨last, fun e' he' last' => ?_⟩
    rw [h.eq_of_seqNum he' he (by omega)]
    rfl

end Latest

/-! ## What touches a log -/

section Writes

variable [DecidableEq Digest] {H : Hashes Digest Args} {me : Bytes32}
  {st : LogStore Digest Args} {nd : Node Digest Args}

/-- All logs of the node are chains. -/
def OwnChains (H : Hashes Digest Args) (me : Bytes32) (nd : Node Digest Args) : Prop :=
  ∀ logId, Chained H (ownEntries nd.store me logId)

theorem ownEntries_insertOperation (op : Operation Digest Args) (logId logId' : UInt64) :
    ownEntries (st.insertOperation op logId) me logId' =
      if st.operations.Free op.hash ∧ op.header.verifyingKey = me ∧ logId = logId' then
        ownEntries st me logId' ++ [⟨op, logId⟩] else ownEntries st me logId' := by
  by_cases free : st.operations.Free op.hash
  · have rows : (st.insertOperation op logId).operations.rows =
        st.operations.rows ++ [⟨op, logId⟩] := Table.rows_insertOrIgnore free
    have last : [(⟨op, logId⟩ : LogEntry Digest Args)].filter
        (fun e => e.author = me ∧ e.logId = logId') =
          if op.header.verifyingKey = me ∧ logId = logId' then [⟨op, logId⟩] else [] := by
      split_ifs with own
      · refine List.filter_eq_self.2 fun e he => ?_
        rw [List.mem_singleton.1 he]
        exact decide_eq_true own
      · refine List.filter_eq_nil_iff.2 fun e he => ?_
        rw [List.mem_singleton.1 he]
        exact fun holds => own (of_decide_eq_true holds)
    rw [ownEntries, rows, List.filter_append, last]
    split_ifs
    · rfl
    · tauto
    · tauto
    · exact List.append_nil _
  · have ignored : st.insertOperation op logId = st := by
      have taken : ∃ r ∈ st.operations.rows, r.op.hash = op.hash := by
        simpa [Table.Free] using free
      rw [LogStore.insertOperation, Table.insertOrIgnore, dif_pos taken]
    rw [ignored, if_neg (by tauto)]

/-- Appending the next operation of the node to one of its logs. -/
theorem OwnChains.append (h : OwnChains H me nd) {logId : UInt64} {payload : Option Bytes}
    {extensions : ZodiaExtensions Args} {op : Operation Digest Args}
    (header : op.header = nd.nextHeader H me logId payload extensions)
    (hash : op.hash = H.header op.header) :
    OwnChains H me { nd with store := nd.store.insertOperation op logId } := by
  intro logId'
  change Chained H (ownEntries (nd.store.insertOperation op logId) me logId')
  rw [ownEntries_insertOperation]
  split
  · next appended =>
    obtain ⟨-, -, rfl⟩ := appended
    obtain ⟨seqNum, backlink⟩ := nextHeader_continues (h logId) payload extensions
    refine (h logId).concat hash ?_ ?_
    · rw [header, seqNum]
    · rw [header]
      exact backlink
  · exact h logId'

/-- An operation of somebody else is in no log of the node. -/
theorem OwnChains.foreign (h : OwnChains H me nd) {op : Operation Digest Args} {logId : UInt64}
    (other : op.header.verifyingKey ≠ me) :
    OwnChains H me { nd with store := nd.store.insertOperation op logId } := by
  intro logId'
  change Chained H (ownEntries (nd.store.insertOperation op logId) me logId')
  rw [ownEntries_insertOperation, if_neg (by tauto)]
  exact h logId'

omit [DecidableEq Digest] in
/-- Pruning spares the node's own operations. -/
theorem OwnChains.prune (h : OwnChains H me nd) (cutoff : ℕ) :
    OwnChains H me (nd.pruneOlderThan me cutoff) := by
  intro logId
  have same : ownEntries (nd.pruneOlderThan me cutoff).store me logId =
      ownEntries nd.store me logId := by
    simp only [ownEntries, Node.pruneOlderThan, LogStore.pruneOlderThan, Table.filter,
      List.filter_filter]
    refine List.filter_congr fun e _ => ?_
    by_cases own : e.author = me <;> simp [own]
  rw [same]
  exact h logId

/-- A call to the node, a start, or the arrival of an operation of somebody else. -/
def Foreign (me : Bytes32) : NodeEvent Digest Args → Prop
  | .received _ _ op => op.header.verifyingKey ≠ me
  | _ => True

theorem OwnChains.forge (h : OwnChains H me nd) (args : Args) :
    OwnChains H me (nd.forge H me args) := h.append rfl rfl

theorem OwnChains.spawn (h : OwnChains H me nd) (keyBundle : Args) :
    OwnChains H me (Node.spawn H me nd.store keyBundle) :=
  Node.spawn_keeps h (fun nd h => by simpa [OwnChains] using h)
    (fun nd h => by simpa [OwnChains] using h) (fun _ args h => h.forge args) (fun _ h => h)
    keyBundle

theorem OwnChains.publishBytes (h : OwnChains H me nd) (payload : Bytes) (logId : UInt64)
    (topic : Digest) (now : ℕ) : OwnChains H me (nd.publishBytes H me payload logId topic now) :=
  h.append rfl rfl

theorem OwnChains.step (h : OwnChains H me nd) {e : NodeEvent Digest Args}
    (foreign : Foreign me e) : OwnChains H me (nd.step H me e) := by
  have opened : ∀ topic logId, OwnChains H me (nd.openTopic topic logId) := by
    intro topic logId
    simpa [OwnChains] using h
  cases e with
  | restart keyBundle => exact h.spawn keyBundle
  | subscribe interpKey => exact opened _ _
  | unsubscribe interpKey => exact h
  | publish payload now => exact h.publishBytes payload interpLogId _ now
  | publishDoc interpKey payload now =>
    exact OwnChains.publishBytes (opened _ _) payload _ _ now
  | openCircle circleId => exact opened _ _
  | circleCall circleId forged =>
    exact Node.circleCall_keeps (opened _ _) (fun _ args h => h.forge args) (fun _ h => h) forged
  | forge args => exact h.forge args
  | received topic logId op =>
    simp only [Node.step, Node.operationReceived]
    split
    · exact h.foreign foreign
    · exact h.foreign foreign
  | prune cutoff => exact h.prune cutoff

/-- In every run, every log of the node's own key is a chain: the sequence numbers `0` to
`n - 1`, each linked to the one before it. -/
theorem own_logs_chained (keyBundle : Args) (es : List (NodeEvent Digest Args))
    (foreign : ∀ e ∈ es, Foreign me e) (logId : UInt64) :
    IsChain (exec (Node.step H me) (Node.spawn H me LogStore.empty keyBundle) es).store me
      logId := by
  have fresh : OwnChains H me (⟨LogStore.empty, [], []⟩ : Node Digest Args) := fun _ => .nil
  have chained := exec_invariant (fun nd e (h : OwnChains H me nd) ok => h.step ok)
    (fresh.spawn keyBundle) (Along.of_forall foreign _) logId
  exact ⟨⟨_, .of_eq chained.seqNums⟩, chained.linked⟩

end Writes

/-! ### One log with both kinds of operations -/

section Mixed

/-- Header hashes that tell the author, the kind, the position and the payload. -/
private def headerHashes : Hashes Bytes Unit :=
  { symbolicHashes with
    header := fun h =>
      h.verifyingKey.toList ++ symbolicHashes.header h ++ h.payloadHash.getD [] }

/-- Publications and a circle call around an operation of somebody else, a cleanup and a
restart. -/
private def mixedCalls : List (NodeEvent Bytes Unit) :=
  [.publish [1] 5, .publishDoc "a" [2] 6, .circleCall (Vector.replicate 32 9) [(), ()],
   .received (globalTopic headerHashes) 0
    ⟨[2, 0, 0, 7], ⟨Vector.replicate 32 2, 1, some [7], 0, none, .interp 5⟩, some [7]⟩,
   .prune 6, .restart (), .publish [3] 7]

/-- The global log of the node is a chain of circle operations and publications. -/
theorem own_logs_chained_mixed :
    IsChain (exec (Node.step headerHashes (Vector.replicate 32 1))
      (Node.spawn headerHashes (Vector.replicate 32 1) LogStore.empty ()) mixedCalls).store
      (Vector.replicate 32 1) 0 := by
  refine own_logs_chained () mixedCalls (fun e he => ?_) 0
  simp only [mixedCalls, List.mem_cons, List.not_mem_nil, or_false] at he
  rcases he with rfl | rfl | rfl | rfl | rfl | rfl | rfl
  any_goals trivial
  exact fun same => absurd (congrArg (fun v => v[0]) same) (by decide)

example : (ownEntries (exec (Node.step headerHashes (Vector.replicate 32 1))
      (Node.spawn headerHashes (Vector.replicate 32 1) LogStore.empty ()) mixedCalls).store
      (Vector.replicate 32 1) 0).map (fun e => (e.op.header.seqNum, e.isCircle)) =
    [(0, true), (1, false), (2, true), (3, true), (4, true), (5, false)] := by decide

end Mixed

end Zodia.Sync
