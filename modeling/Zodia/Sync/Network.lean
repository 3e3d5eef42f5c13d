import Mathlib.Data.Set.Function
import Std.Data.String.ToNat
import Zodia.Ops.Operations
import Zodia.Sync.LogSeparation

/-!
# A network of nodes

Several nodes, and what they have handed to their peers. A node hands out what its store serves
on a topic, its own operations and those it relays alike; what was handed out on a topic may
arrive late, more than once and at any node that has the topic open. Every node is honest: its
`DocOp`s go out under the key they carry.

Each node works out on its own which log and which topic belong to a key. What keeps the
operations of one key out of the logs of another is that all of them use the same two functions,
and that these give different keys different values.

## Main definitions

* `TopicName`, `TopicName.topic` — everything a topic is the hash of.
* `Network`, `Network.step` — local calls, deliveries and hand-outs in any order.
* `KeyIsolated` — the logs that a key's topic leads to hold `DocOp`s of that key only.
-/

namespace Zodia.Sync

open Lib Ops

variable {Digest Args : Type}

/-! ## Topics -/

/-- What a topic is for. -/
inductive TopicName where
  | global
  | interp (interpKey : String)
  | degree (bucket : UInt32)
  | circle (circleId : Bytes32)
  | circleDirectory

/-- One of the topics `topic_keys_for_chart` derives from a chart. -/
def topicKeyForDegree (H : Hashes Digest Args) (bucket : UInt32) : Digest :=
  H.hash (utf8 ("zodia:v1:degree:" ++ bucket.toNat.repr))

def TopicName.topic (H : Hashes Digest Args) : TopicName → Digest
  | .global => globalTopic H
  | .interp interpKey => topicKeyForInterp H interpKey
  | .degree bucket => topicKeyForDegree H bucket
  | .circle circleId => topicForCircle H circleId
  | .circleDirectory => circleDirectoryTopic H

section Topics

variable {H : Hashes Digest Args} (hash_inj : Function.Injective H.hash)

include hash_inj

theorem topicKeyForInterp_injective {a b : String}
    (h : topicKeyForInterp H a = topicKeyForInterp H b) : a = b := by
  have bytes := hash_inj h
  rw [utf8_append, utf8_append] at bytes
  exact utf8_inj (List.append_cancel_left bytes)

theorem topicKeyForDegree_injective {a b : UInt32}
    (h : topicKeyForDegree H a = topicKeyForDegree H b) : a = b := by
  have bytes := hash_inj h
  rw [utf8_append, utf8_append] at bytes
  have repr := congrArg String.toNat? (utf8_inj (List.append_cancel_left bytes))
  rw [Nat.toNat?_repr, Nat.toNat?_repr] at repr
  exact UInt32.toNat_inj.1 (Option.some.inj repr)

end Topics

/-- The tenth byte of what a topic is the hash of. -/
def TopicName.kind : TopicName → UInt8
  | .global => 103
  | .interp _ => 105
  | .degree _ => 100
  | .circle _ | .circleDirectory => 99

/-- What a topic is the hash of. -/
def TopicName.bytes : TopicName → Bytes
  | .global => utf8 "zodia:v1:global"
  | .interp interpKey => utf8 ("zodia:v1:interp:" ++ interpKey)
  | .degree bucket => utf8 ("zodia:v1:degree:" ++ bucket.toNat.repr)
  | .circle circleId => utf8 "zodia:v1:circle:" ++ circleId.toList
  | .circleDirectory => utf8 "zodia:v1:circle-directory"

theorem TopicName.topic_eq (H : Hashes Digest Args) (name : TopicName) :
    name.topic H = H.hash name.bytes := by
  cases name <;> rfl

theorem TopicName.bytes_kind (name : TopicName) : name.bytes[9]? = some name.kind := by
  cases name with
  | global | circleDirectory => rfl
  | interp _ | degree _ =>
    rw [bytes, utf8_append, List.getElem?_append_left (by decide)]
    rfl
  | circle circleId =>
    rw [bytes, List.getElem?_append_left (by decide)]
    rfl

/-- All topics are different. -/
theorem TopicName.topic_injective {H : Hashes Digest Args} (hash_inj : Function.Injective H.hash) :
    Function.Injective (TopicName.topic H) := by
  intro a b same
  have kind : a.kind = b.kind := by
    rw [topic_eq, topic_eq] at same
    have byte := congrArg (fun l => l[9]?) (hash_inj same)
    simpa [bytes_kind] using byte
  cases a <;> cases b <;> simp only [TopicName.kind] at kind <;> try contradiction
  · rfl
  · rw [topicKeyForInterp_injective hash_inj same]
  · rw [topicKeyForDegree_injective hash_inj same]
  · rw [topicForCircle_injective hash_inj same]
  · exact absurd same (topicForCircle_ne_directory hash_inj _)
  · exact absurd same.symm (topicForCircle_ne_directory hash_inj _)
  · rfl

/-! ## The network -/

/-- The nodes, and the operations that were handed out on a topic. -/
structure Network (ι Digest Args : Type) where
  nodes : ι → Node Digest Args
  wire : List (Digest × Operation Digest Args)

/-- A call to a node or an arrival at it, or a node that hands out an entry of its store. -/
inductive NetworkEvent (ι Digest Args : Type) where
  | node (i : ι) (e : NodeEvent Digest Args)
  | handOut (i : ι) (topic : Digest) (e : LogEntry Digest Args)

section Network

variable {ι : Type} [DecidableEq ι] [DecidableEq Digest] (H : Hashes Digest Args)
  (me : ι → Bytes32) (encode : DocOp Digest → Bytes)

def Network.step (net : Network ι Digest Args) :
    NetworkEvent ι Digest Args → Network ι Digest Args
  | .node i e => { net with nodes := Function.update net.nodes i ((net.nodes i).step H (me i) e) }
  | .handOut _ topic e => { net with wire := (topic, e.op) :: net.wire }

/-- A `DocOp` is published under its own key, what arrives was handed out on the topic, and a
node hands out what its store serves. -/
def Network.Honest (net : Network ι Digest Args) : NetworkEvent ι Digest Args → Prop
  | .node i e => (net.nodes i).Enabled e ∧
    match e with
    | .publishDoc interpKey payload _ => ∃ doc : DocOp Digest,
      doc.interpKey = interpKey ∧ payload = encode doc
    | .received topic _ op => (topic, op) ∈ net.wire
    | _ => True
  | .handOut i topic e => (net.nodes i).store.Served topic e

/-- The nodes before their first start. -/
def Network.fresh : Network ι Digest Args := ⟨fun _ => ⟨LogStore.empty, [], []⟩, []⟩

/-- The keys that nodes subscribe to and publish under are among `keys`. -/
def NetworkEvent.Within (keys : Set String) : NetworkEvent ι Digest Args → Prop
  | .node _ (.subscribe interpKey) => interpKey ∈ keys
  | .node _ (.publishDoc interpKey _ _) => interpKey ∈ keys
  | _ => True

/-- The operation carries a `DocOp` of the key. -/
def IsDocOp (interpKey : String) (op : Operation Digest Args) : Prop :=
  op.header.extensions.isCircle = false ∧
    ∃ doc : DocOp Digest, doc.interpKey = interpKey ∧ op.body = some (encode doc)

/-- The logs that the topic of a key leads to hold `DocOp`s of the key and nothing else. -/
def KeyIsolated (st : LogStore Digest Args) : Prop :=
  ∀ interpKey author logId, (topicKeyForInterp H interpKey, author, logId) ∈ st.topics →
    ∀ e ∈ st.operations, e.author = author → e.logId = logId → IsDocOp encode interpKey e.op

/-! ## What a node keeps -/

variable (keys : Set String)

/-- The key's own log, which only the keys of the run have. -/
def KeyLog (interpKey : String) (logId : UInt64) : Prop :=
  interpKey ∈ keys ∧ logId = logIdForKey H interpKey

/-- The log of a key holds its `DocOp`s, and the topic of a key leads to that log and is open
with it; every other topic is open with log 0. -/
structure Node.Keyed (nd : Node Digest Args) : Prop where
  entries : ∀ e ∈ nd.store.operations, ∀ interpKey, KeyLog H keys interpKey e.logId →
    IsDocOp encode interpKey e.op
  topics : ∀ interpKey author logId,
    (topicKeyForInterp H interpKey, author, logId) ∈ nd.store.topics → KeyLog H keys interpKey logId
  pumps : ∀ topic logId, (topic, logId) ∈ nd.pumps →
    (∃ interpKey, topic = topicKeyForInterp H interpKey ∧ KeyLog H keys interpKey logId) ∨
      (logId = 0 ∧ ∀ interpKey, topic ≠ topicKeyForInterp H interpKey)

/-- Different keys of the run have different logs, and none has log 0. -/
structure KeyLogs : Prop where
  distinct : Set.InjOn (logIdForKey H) keys
  nonzero : ∀ interpKey ∈ keys, logIdForKey H interpKey ≠ 0

end Network

section Keyed

variable [DecidableEq Digest] {H : Hashes Digest Args} {encode : DocOp Digest → Bytes}
  {keys : Set String} {nd : Node Digest Args} {me : Bytes32}

omit [DecidableEq Digest] in
theorem Node.Keyed.isolated (h : nd.Keyed H encode keys) : KeyIsolated H encode nd.store := by
  intro interpKey author logId leads e he _ log
  exact h.entries e he interpKey (log ▸ h.topics interpKey author logId leads)

omit [DecidableEq Digest] in
theorem KeyLogs.not_keyLog_zero (logs : KeyLogs H keys) (interpKey : String) :
    ¬ KeyLog H keys interpKey 0 :=
  fun log => logs.nonzero interpKey log.1 log.2.symm

omit [DecidableEq Digest] in
/-- A log belongs to one key of the run. -/
theorem KeyLogs.eq_of_keyLog (logs : KeyLogs H keys) {a b : String} {logId : UInt64}
    (ha : KeyLog H keys a logId) (hb : KeyLog H keys b logId) : a = b :=
  logs.distinct ha.1 hb.1 (ha.2.symm.trans hb.2)

theorem Node.Keyed.openTopic (h : nd.Keyed H encode keys) {topic : Digest} {logId : UInt64}
    (opens : (∃ interpKey, topic = topicKeyForInterp H interpKey ∧ KeyLog H keys interpKey logId) ∨
      (logId = 0 ∧ ∀ interpKey, topic ≠ topicKeyForInterp H interpKey)) :
    (nd.openTopic topic logId).Keyed H encode keys := by
  unfold Node.openTopic
  split
  · exact h
  · refine ⟨h.entries, h.topics, fun t l hl => ?_⟩
    rcases List.mem_cons.1 hl with same | old
    · obtain ⟨rfl, rfl⟩ := Prod.mk.inj same
      exact opens
    · exact h.pumps t l old

theorem Node.Keyed.insertOperation (h : nd.Keyed H encode keys) {op : Operation Digest Args}
    {logId : UInt64} (fits : ∀ interpKey, KeyLog H keys interpKey logId →
      IsDocOp encode interpKey op) :
    ({ nd with store := nd.store.insertOperation op logId } : Node Digest Args).Keyed H encode
      keys where
  entries e he := by
    rcases LogStore.mem_insertOperation he with old | rfl
    · exact h.entries e old
    · exact fits
  topics := h.topics
  pumps := h.pumps

omit [DecidableEq Digest] in
theorem Node.Keyed.associate (h : nd.Keyed H encode keys) {topic : Digest} {author : Bytes32}
    {logId : UInt64} (fits : ∀ interpKey, topic = topicKeyForInterp H interpKey →
      KeyLog H keys interpKey logId) :
    ({ nd with store := nd.store.associate topic author logId } : Node Digest Args).Keyed H encode
      keys where
  entries := h.entries
  topics interpKey a l hmem := by
    rcases List.mem_cons.1 hmem with same | old
    · obtain ⟨topic, rest⟩ := Prod.mk.inj same
      obtain ⟨-, rfl⟩ := Prod.mk.inj rest
      exact fits interpKey topic.symm
    · exact h.topics interpKey a l old
  pumps := h.pumps

section Steps

variable (hash_inj : Function.Injective H.hash) (logs : KeyLogs H keys)

include logs in
/-- What is written to log 0 concerns no key. -/
theorem Node.Keyed.insertZero (h : nd.Keyed H encode keys) (op : Operation Digest Args) :
    ({ nd with store := nd.store.insertOperation op 0 } : Node Digest Args).Keyed H encode keys :=
  h.insertOperation fun interpKey log => absurd log (logs.not_keyLog_zero interpKey)

omit [DecidableEq Digest] in
include hash_inj in
theorem Node.Keyed.broadcastCircleOp (h : nd.Keyed H encode keys) {topic : Digest}
    (hc : IsCircleTopic H topic) : (nd.broadcastCircleOp me topic).Keyed H encode keys :=
  h.associate fun interpKey same =>
    absurd (same ▸ hc) (topicKeyForInterp_not_circle hash_inj interpKey)

include hash_inj in
theorem Node.Keyed.openCircleTopic (h : nd.Keyed H encode keys) {topic : Digest}
    (hc : IsCircleTopic H topic) : (nd.openTopic topic 0).Keyed H encode keys :=
  h.openTopic (.inr ⟨rfl, fun interpKey same =>
    topicKeyForInterp_not_circle hash_inj interpKey (same ▸ hc)⟩)

include hash_inj logs in
theorem Node.Keyed.spawn (h : nd.Keyed H encode keys) (keyBundle : Args) :
    (Node.spawn H me nd.store keyBundle).Keyed H encode keys := by
  refine Node.spawn_keeps ⟨h.entries, h.topics, by simp⟩ (fun nd h => ?_)
    (fun nd h => h.openCircleTopic hash_inj (.inl rfl)) (fun nd args h => h.insertZero logs _)
    (fun nd h => h.broadcastCircleOp hash_inj (.inl rfl)) keyBundle
  exact h.openTopic
    (.inr ⟨rfl, fun interpKey => (topicKeyForInterp_ne_global hash_inj interpKey).symm⟩)

theorem Node.Keyed.subscribe (h : nd.Keyed H encode keys) {interpKey : String}
    (known : interpKey ∈ keys) : (nd.subscribe H interpKey).Keyed H encode keys :=
  h.openTopic (.inl ⟨interpKey, rfl, known, rfl⟩)

include hash_inj logs in
theorem Node.Keyed.publishDoc (h : nd.Keyed H encode keys) {interpKey : String}
    (known : interpKey ∈ keys) {payload : Bytes} {now : ℕ}
    (carries : ∃ doc : DocOp Digest, doc.interpKey = interpKey ∧ payload = encode doc) :
    (nd.publishDoc H me interpKey payload now).Keyed H encode keys := by
  refine ((h.subscribe known).insertOperation fun key log => ?_).associate fun key same => ?_
  · obtain rfl := logs.eq_of_keyLog log ⟨known, rfl⟩
    obtain ⟨doc, own, rfl⟩ := carries
    exact ⟨rfl, doc, own, rfl⟩
  · obtain rfl := topicKeyForInterp_injective hash_inj same
    exact ⟨known, rfl⟩

include hash_inj logs in
/-- What arrives on the topic of a key is a `DocOp` of the key. -/
theorem Node.Keyed.operationReceived (h : nd.Keyed H encode keys) {topic : Digest}
    {logId : UInt64} {op : Operation Digest Args} (pump : (topic, logId) ∈ nd.pumps)
    (sent : ∀ interpKey, topic = topicKeyForInterp H interpKey → IsDocOp encode interpKey op) :
    (nd.operationReceived topic logId op).Keyed H encode keys := by
  unfold Node.operationReceived
  rcases h.pumps topic logId pump with ⟨interpKey, rfl, log⟩ | ⟨rfl, other⟩
  · have doc := sent interpKey rfl
    cases hx : op.header.extensions with
    | circle args => simp [IsDocOp, hx, ZodiaExtensions.isCircle] at doc
    | interp timestamp =>
      refine (h.insertOperation fun key log' => ?_).associate fun key same => ?_
      · exact logs.eq_of_keyLog log log' ▸ doc
      · exact topicKeyForInterp_injective hash_inj same ▸ log
  · have stored : ({ nd with
        store := nd.store.storeAndAssociate topic op.header.verifyingKey 0 op } :
        Node Digest Args).Keyed H encode keys :=
      (h.insertZero logs op).associate fun interpKey same => absurd same (other interpKey)
    cases op.header.extensions with
    | circle args => exact stored
    | interp timestamp => exact stored

include hash_inj logs in
theorem Node.Keyed.step (h : nd.Keyed H encode keys) {e : NodeEvent Digest Args}
    (enabled : nd.Enabled e)
    (subscribes : ∀ interpKey, e = .subscribe interpKey → interpKey ∈ keys)
    (publishes : ∀ interpKey payload now, e = .publishDoc interpKey payload now →
      interpKey ∈ keys ∧ ∃ doc : DocOp Digest, doc.interpKey = interpKey ∧ payload = encode doc)
    (receives : ∀ topic logId op, e = .received topic logId op →
      ∀ interpKey, topic = topicKeyForInterp H interpKey → IsDocOp encode interpKey op) :
    (nd.step H me e).Keyed H encode keys := by
  cases e with
  | restart keyBundle => exact h.spawn hash_inj logs keyBundle
  | subscribe interpKey => exact h.subscribe (subscribes interpKey rfl)
  | unsubscribe interpKey => exact ⟨h.entries, h.topics, h.pumps⟩
  | publish payload now =>
    exact (h.insertZero logs _).associate fun interpKey same =>
      absurd same.symm (topicKeyForInterp_ne_global hash_inj interpKey)
  | publishDoc interpKey payload now =>
    obtain ⟨known, carries⟩ := publishes interpKey payload now rfl
    exact h.publishDoc hash_inj logs known carries
  | openCircle circleId => exact h.openCircleTopic hash_inj (.inr ⟨circleId, rfl⟩)
  | circleCall circleId forged =>
    exact Node.circleCall_keeps (h.openCircleTopic hash_inj (.inr ⟨circleId, rfl⟩))
      (fun nd args h => h.insertZero logs _)
      (fun nd h => h.broadcastCircleOp hash_inj (.inr ⟨circleId, rfl⟩)) forged
  | forge args => exact h.insertZero logs _
  | received topic logId op =>
    exact h.operationReceived hash_inj logs enabled (receives topic logId op rfl)
  | prune cutoff =>
    exact ⟨fun e he => h.entries e (LogStore.mem_pruneOlderThan he), h.topics, h.pumps⟩

end Steps

end Keyed

/-! ## Runs of the network -/

section Runs

variable {ι : Type} [DecidableEq ι] [DecidableEq Digest] {H : Hashes Digest Args}
  {me : ι → Bytes32} {encode : DocOp Digest → Bytes} {keys : Set String}

/-- Every node keeps the logs of the keys apart, and what was handed out on the topic of a key
is a `DocOp` of the key. -/
structure Network.Keyed (H : Hashes Digest Args) (encode : DocOp Digest → Bytes)
    (keys : Set String) (net : Network ι Digest Args) : Prop where
  nodes : ∀ i, (net.nodes i).Keyed H encode keys
  wire : ∀ topic op, (topic, op) ∈ net.wire →
    ∀ interpKey, topic = topicKeyForInterp H interpKey → IsDocOp encode interpKey op

theorem Network.Keyed.step (hash_inj : Function.Injective H.hash) (logs : KeyLogs H keys)
    {net : Network ι Digest Args} (h : net.Keyed H encode keys) {e : NetworkEvent ι Digest Args}
    (honest : net.Honest encode e) (within : e.Within keys) :
    (net.step H me e).Keyed H encode keys := by
  cases e with
  | node i e =>
    refine ⟨fun j => ?_, h.wire⟩
    by_cases own : j = i
    · subst own
      have stepped : ((net.nodes j).step H (me j) e).Keyed H encode keys := by
        refine (h.nodes j).step hash_inj logs honest.1 ?_ ?_ ?_
        · rintro interpKey rfl
          exact within
        · rintro interpKey payload now rfl
          exact ⟨within, honest.2⟩
        · rintro topic logId op rfl
          exact h.wire topic op honest.2
      simpa [Network.step] using stepped
    · simpa [Network.step, own] using h.nodes j
  | handOut i topic e =>
    refine ⟨h.nodes, fun t op hmem interpKey same => ?_⟩
    rcases List.mem_cons.1 hmem with new | old
    · obtain ⟨rfl, rfl⟩ := Prod.mk.inj new
      subst same
      have node := h.nodes i
      exact node.entries e honest.1 interpKey (node.topics interpKey e.author e.logId honest.2)
    · exact h.wire t op old interpKey same

/-- In every run of honest nodes whose keys have logs of their own, every log that the topic of
a key leads to holds `DocOp`s of that key only; and all topics are different. -/
theorem key_logs_isolated (hash_inj : Function.Injective H.hash) (logs : KeyLogs H keys)
    (es : List (NetworkEvent ι Digest Args))
    (run : Along (Network.step H me) (fun net e => net.Honest encode e ∧ e.Within keys)
      Network.fresh es) :
    (∀ i, KeyIsolated H encode ((exec (Network.step H me) Network.fresh es).nodes i).store) ∧
      Function.Injective (TopicName.topic H) := by
  have fresh : (Network.fresh : Network ι Digest Args).Keyed H encode keys :=
    ⟨fun _ => ⟨by simp [Network.fresh, LogStore.empty], by simp [Network.fresh, LogStore.empty],
      by simp [Network.fresh]⟩, by simp [Network.fresh]⟩
  have inv := exec_invariant (fun net e (h : net.Keyed H encode keys) ok =>
    h.step hash_inj logs ok.1 ok.2) fresh run
  exact ⟨fun i => (inv.nodes i).isolated, TopicName.topic_injective hash_inj⟩

end Runs

/-! ### A document that is relayed -/

section Relay

/-- Hashes under which the keys `a` and `b` have different logs. -/
private def keyedHashes : Hashes Bytes Unit :=
  { symbolicHashes with low64 := fun b => b.foldl (fun n x => 257 * n + x.toUInt64) 0 }

private def keyOf (doc : DocOp Bytes) : Bytes := utf8 doc.interpKey

private def nodeKey : Bool → Bytes32
  | false => Vector.replicate 32 1
  | true => Vector.replicate 32 2

/-- The presence of an editor of the key `a`. -/
private def presence : Operation Bytes Unit :=
  ⟨[0, 0], ⟨Vector.replicate 32 1, 1, some (utf8 "a"), 0, none, .interp 5⟩, some (utf8 "a")⟩

private def relayed : List (NetworkEvent Bool Bytes Unit) :=
  [.node false (.restart ()), .node false (.publishDoc "a" (utf8 "a") 5),
   .node true (.restart ()), .node true (.subscribe "a"), .node true (.subscribe "b"),
   .handOut false (topicKeyForInterp keyedHashes "a") ⟨presence, logIdForKey keyedHashes "a"⟩,
   .node true (.received (topicKeyForInterp keyedHashes "a") (logIdForKey keyedHashes "a")
     presence)]

private theorem keyLogs_ab : KeyLogs keyedHashes {"a", "b"} where
  distinct a ha b hb same := by
    rcases ha with rfl | rfl <;> rcases hb with rfl | rfl
    · rfl
    · exact absurd same (by decide)
    · exact absurd same (by decide)
    · rfl
  nonzero a ha := by
    rcases ha with rfl | rfl <;> decide

/-- One node publishes under a key, another one subscribes to two keys and receives it. -/
theorem key_logs_isolated_relayed :
    (∀ i, KeyIsolated keyedHashes keyOf
      ((exec (Network.step keyedHashes nodeKey) Network.fresh relayed).nodes i).store) ∧
      Function.Injective (TopicName.topic keyedHashes) := by
  refine key_logs_isolated Function.injective_id keyLogs_ab relayed
    ⟨⟨⟨trivial, trivial⟩, trivial⟩, ⟨⟨trivial, ?_⟩, ?_⟩, ⟨⟨trivial, trivial⟩, trivial⟩,
     ⟨⟨trivial, trivial⟩, ?_⟩, ⟨⟨trivial, trivial⟩, ?_⟩, ⟨⟨?_, ?_⟩, trivial⟩, ⟨⟨?_, ?_⟩, trivial⟩,
     trivial⟩
  · exact ⟨.editorPresence "a" true, rfl, rfl⟩
  · exact .inl rfl
  · exact .inl rfl
  · exact .inr rfl
  · exact Table.mem_insertOrIgnore.2 (.inr ⟨rfl, by decide⟩)
  · exact List.mem_cons_self
  · change (topicKeyForInterp keyedHashes "a", logIdForKey keyedHashes "a") ∈ Node.pumps _
    decide
  · exact List.mem_cons_self

end Relay

end Zodia.Sync
