import Zodia.Lib.Run
import Zodia.Lib.Symbolic
import Zodia.Sync.LogStore

/-!
# The sync node

The node of `sync/src/lib.rs`: one operation store, the open topics and the pumps
that persist what arrives on them. Publishing, forging circle operations and
receiving each choose the log they write to on their own.
-/

namespace Zodia.Sync

open Lib

variable {Digest Args : Type}

/-- BLAKE3, its leading eight bytes as a number, and the hash of a header. -/
structure Hashes (Digest Args : Type) where
  hash : Bytes → Digest
  low64 : Digest → UInt64
  header : Header Digest Args → Digest

variable (H : Hashes Digest Args)

/-! ## Topics and log ids -/

def globalTopic : Digest := H.hash (utf8 "zodia:v1:global")
def topicKeyForInterp (interpKey : String) : Digest :=
  H.hash (utf8 ("zodia:v1:interp:" ++ interpKey))
def topicForCircle (circleId : Bytes32) : Digest :=
  H.hash (utf8 "zodia:v1:circle:" ++ circleId.toList)
def circleDirectoryTopic : Digest := H.hash (utf8 "zodia:v1:circle-directory")

def interpLogId : UInt64 := 0
def circleLogId : UInt64 := 0
def logIdForKey (interpKey : String) : UInt64 :=
  H.low64 (H.hash (utf8 ("interp-log:v1:" ++ interpKey)))

/-! ## The node -/

/-- The store, the topics with a live handle, and the pumps with the log id each
topic was opened with. A pump may still hold operations after its handle is dropped. -/
structure Node (Digest Args : Type) where
  store : LogStore Digest Args
  handles : List Digest
  pumps : List (Digest × UInt64)

section Node

variable [DecidableEq Digest] (me : Bytes32) (nd : Node Digest Args)

/-- Open a topic unless it is open. -/
def Node.openTopic (topic : Digest) (logId : UInt64) : Node Digest Args :=
  if topic ∈ nd.handles then nd
  else { nd with handles := topic :: nd.handles, pumps := (topic, logId) :: nd.pumps }

@[simp] theorem Node.store_openTopic (topic : Digest) (logId : UInt64) :
    (nd.openTopic topic logId).store = nd.store := by
  unfold Node.openTopic
  split <;> rfl

variable {nd} in
theorem mem_handles_openTopic {topic t : Digest} {logId : UInt64} :
    t ∈ (nd.openTopic topic logId).handles ↔ t = topic ∨ t ∈ nd.handles := by
  unfold Node.openTopic
  split <;> simp
  rintro rfl
  assumption

def Node.subscribe (interpKey : String) : Node Digest Args :=
  nd.openTopic (topicKeyForInterp H interpKey) (logIdForKey H interpKey)

def Node.unsubscribe (interpKey : String) : Node Digest Args :=
  { nd with handles := nd.handles.filter (· ≠ topicKeyForInterp H interpKey) }

/-- The header that extends the node's own log: the next sequence number and a link
to the entry before it. -/
def Node.nextHeader (logId : UInt64) (payload : Option Bytes) (extensions : ZodiaExtensions Args) :
    Header Digest Args :=
  let latest := nd.store.getLatestEntry me logId
  { verifyingKey := me
    payloadSize := (payload.map List.length).getD 0
    payloadHash := payload.map H.hash
    seqNum := match latest with
      | some prev => prev.header.seqNum + 1
      | none => 0
    backlink := latest.map fun prev => H.header prev.header
    extensions := extensions }

/-- Append an interpretation operation to the node's log `logId` and advertise it. -/
def Node.publishBytes (payload : Bytes) (logId : UInt64) (topic : Digest) (now : ℕ) :
    Node Digest Args :=
  let header := nd.nextHeader H me logId (some payload) (.interp now)
  let op : Operation Digest Args := ⟨H.header header, header, some payload⟩
  { nd with store := nd.store.storeAndAssociate topic me logId op }

/-- Publish an `InterpOp` to the global log. -/
def Node.publish (payload : Bytes) (now : ℕ) : Node Digest Args :=
  nd.publishBytes H me payload interpLogId (globalTopic H) now

/-- Publish a `DocOp` to the log of its key, opening the topic of the key. -/
def Node.publishDoc (interpKey : String) (payload : Bytes) (now : ℕ) : Node Digest Args :=
  (nd.subscribe H interpKey).publishBytes H me payload (logIdForKey H interpKey)
    (topicKeyForInterp H interpKey) now

/-- Sign and insert one circle operation; it is not associated with a topic yet. -/
def Node.forge (args : Args) : Node Digest Args :=
  let header := nd.nextHeader H me circleLogId none (.circle args)
  let op : Operation Digest Args := ⟨H.header header, header, none⟩
  { nd with store := nd.store.insertOperation op circleLogId }

/-- Advertise the node's circle log on `topic`. -/
def Node.broadcastCircleOp (topic : Digest) : Node Digest Args :=
  { nd with store := nd.store.associate topic me circleLogId }

/-- Creating, inviting, revoking and sharing alike: open the circle's topic, forge the
operations of the call, then broadcast each of them. -/
def Node.circleCall (circleId : Bytes32) (forged : List Args) : Node Digest Args :=
  let topic := topicForCircle H circleId
  let signed := forged.foldl (fun nd args => nd.forge H me args) (nd.openTopic topic circleLogId)
  forged.foldl (fun nd _ => nd.broadcastCircleOp me topic) signed

/-- Open the store after a start: the global and the directory topic, and the node's
key bundle on the latter. -/
def Node.spawn (store : LogStore Digest Args) (keyBundle : Args) : Node Digest Args :=
  let node : Node Digest Args := ⟨store, [], []⟩
  let opened :=
    (node.openTopic (globalTopic H) interpLogId).openTopic (circleDirectoryTopic H) circleLogId
  (opened.forge H me keyBundle).broadcastCircleOp me (circleDirectoryTopic H)

/-- What the pump of a topic does with an operation that arrives on it. -/
def Node.operationReceived (topic : Digest) (logId : UInt64) (op : Operation Digest Args) :
    Node Digest Args :=
  let author := op.header.verifyingKey
  match op.header.extensions with
  | .interp _ => { nd with store := nd.store.storeAndAssociate topic author logId op }
  | .circle _ => { nd with store := nd.store.storeAndAssociate topic author circleLogId op }

def Node.pruneOlderThan (cutoff : ℕ) : Node Digest Args :=
  { nd with store := nd.store.pruneOlderThan me cutoff }

end Node

/-! ## Runs -/

/-- A call to the node, an arrival on one of its topics, or a restart. A circle call
that fails after forging leaves its operations without a broadcast: `forge`. -/
inductive NodeEvent (Digest Args : Type) where
  | restart (keyBundle : Args)
  | subscribe (interpKey : String)
  | unsubscribe (interpKey : String)
  | publish (payload : Bytes) (now : ℕ)
  | publishDoc (interpKey : String) (payload : Bytes) (now : ℕ)
  | openCircle (circleId : Bytes32)
  | circleCall (circleId : Bytes32) (forged : List Args)
  | forge (args : Args)
  | received (topic : Digest) (logId : UInt64) (op : Operation Digest Args)
  | prune (cutoff : ℕ)

variable [DecidableEq Digest] (me : Bytes32)

def Node.step (nd : Node Digest Args) : NodeEvent Digest Args → Node Digest Args
  | .restart keyBundle => Node.spawn H me nd.store keyBundle
  | .subscribe interpKey => nd.subscribe H interpKey
  | .unsubscribe interpKey => nd.unsubscribe H interpKey
  | .publish payload now => nd.publish H me payload now
  | .publishDoc interpKey payload now => nd.publishDoc H me interpKey payload now
  | .openCircle circleId => nd.openTopic (topicForCircle H circleId) circleLogId
  | .circleCall circleId forged => nd.circleCall H me circleId forged
  | .forge args => nd.forge H me args
  | .received topic logId op => nd.operationReceived topic logId op
  | .prune cutoff => nd.pruneOlderThan me cutoff

/-- An operation arrives through a pump of its topic. -/
def Node.Enabled (nd : Node Digest Args) : NodeEvent Digest Args → Prop
  | .received topic logId _ => (topic, logId) ∈ nd.pumps
  | _ => True

/-! ## What holds after a call of several writes -/

section Keeps

variable {H : Hashes Digest Args} {me : Bytes32} {P : Node Digest Args → Prop}
  {nd : Node Digest Args}

/-- Opening, forging and broadcasting is all a circle call does. -/
theorem Node.circleCall_keeps {circleId : Bytes32}
    (opened : P (nd.openTopic (topicForCircle H circleId) circleLogId))
    (forge : ∀ nd args, P nd → P (nd.forge H me args))
    (broadcast : ∀ nd : Node Digest Args, P nd →
      P (nd.broadcastCircleOp me (topicForCircle H circleId)))
    (forged : List Args) : P (nd.circleCall H me circleId forged) := by
  have signed : ∀ (l : List Args) (nd : Node Digest Args), P nd →
      P (l.foldl (fun nd args => nd.forge H me args) nd) := by
    intro l
    induction l with
    | nil => exact fun _ h => h
    | cons args l ih => exact fun nd h => ih _ (forge nd args h)
  have sent : ∀ (l : List Args) (nd : Node Digest Args), P nd →
      P (l.foldl (fun nd _ => nd.broadcastCircleOp me (topicForCircle H circleId)) nd) := by
    intro l
    induction l with
    | nil => exact fun _ h => h
    | cons args l ih => exact fun nd h => ih _ (broadcast nd h)
  exact sent forged _ (signed forged _ opened)

/-- A start opens two topics, forges the key bundle and broadcasts it. -/
theorem Node.spawn_keeps (closed : P ⟨nd.store, [], []⟩)
    (openGlobal : ∀ nd : Node Digest Args, P nd → P (nd.openTopic (globalTopic H) interpLogId))
    (openDirectory : ∀ nd : Node Digest Args, P nd →
      P (nd.openTopic (circleDirectoryTopic H) circleLogId))
    (forge : ∀ nd args, P nd → P (nd.forge H me args))
    (broadcast : ∀ nd : Node Digest Args, P nd →
      P (nd.broadcastCircleOp me (circleDirectoryTopic H)))
    (keyBundle : Args) : P (Node.spawn H me nd.store keyBundle) :=
  broadcast _ (forge _ keyBundle (openDirectory _ (openGlobal _ closed)))

/-- Only `unsubscribe` and a restart close topics. -/
theorem mem_handles_step {topic : Digest} (h : topic ∈ nd.handles) {e : NodeEvent Digest Args}
    (keeps : ∀ interpKey, e ≠ .unsubscribe interpKey)
    (stays : ∀ keyBundle, e ≠ .restart keyBundle) :
    topic ∈ (nd.step H me e).handles := by
  have opens : ∀ (nd : Node Digest Args) t logId, topic ∈ nd.handles →
      topic ∈ (nd.openTopic t logId).handles := fun _ _ _ h => mem_handles_openTopic.2 (.inr h)
  cases e with
  | restart keyBundle => exact absurd rfl (stays keyBundle)
  | unsubscribe interpKey => exact absurd rfl (keeps interpKey)
  | subscribe interpKey => exact opens _ _ _ h
  | publishDoc interpKey payload now => exact opens _ _ _ h
  | openCircle circleId => exact opens _ _ _ h
  | circleCall circleId forged =>
    exact Node.circleCall_keeps (P := fun nd => topic ∈ nd.handles) (opens _ _ _ h)
      (fun _ _ h => h) (fun _ h => h) forged
  | received t logId op =>
    simp only [Node.step, Node.operationReceived]
    split <;> exact h
  | _ => exact h

end Keeps

end Zodia.Sync
