import Zodia.Sync.Node

/-!
# Public and circle logs

The global interpretation log and the circle log of an author have the same id, so
what keeps the two kinds of traffic apart is the author alone. A run keeps them
apart when the authors fall into two groups: those whose circle operations the node
stores, the node itself among them, and those whose interpretation operations it
stores in log 0.

## Main definitions

* `LogsDisjoint` — no log mixes the kinds, and each topic leads to logs of its kind.
* `Separated` — the steps of a run that keep to the two groups of authors.
-/

namespace Zodia.Sync

open Lib

variable {Digest Args : Type} (H : Hashes Digest Args)

/-- The topics that circle traffic is meant for. -/
def IsCircleTopic (topic : Digest) : Prop :=
  topic = circleDirectoryTopic H ∨ ∃ circleId, topic = topicForCircle H circleId

/-- No log holds operations of both kinds, and the logs a topic leads to hold the kind
of the topic. -/
structure LogsDisjoint (st : LogStore Digest Args) : Prop where
  one_kind : ∀ e ∈ st.operations, ∀ e' ∈ st.operations, e.author = e'.author →
    e.logId = e'.logId → e.isCircle = e'.isCircle
  global : ∀ e, st.Served (globalTopic H) e → e.isCircle = false
  circle : ∀ topic, IsCircleTopic H topic → ∀ e, st.Served topic e → e.isCircle = true

/-! ## Topics of different kinds -/

section Topics

variable {H} (hash_inj : Function.Injective H.hash)

include hash_inj

/-- The tenth byte of what a topic is the hash of tells its kind. -/
theorem topics_ne {x y : Bytes} (h : x[9]? ≠ y[9]?) : H.hash x ≠ H.hash y :=
  fun same => h (congrArg (fun b => b[9]?) (hash_inj same))

theorem globalTopic_ne_circle {topic : Digest} (h : IsCircleTopic H topic) :
    globalTopic H ≠ topic := by
  rcases h with rfl | ⟨circleId, rfl⟩
  · exact topics_ne hash_inj (by decide)
  · refine topics_ne hash_inj ?_
    rw [List.getElem?_append_left (by decide)]
    decide

theorem topicKeyForInterp_ne_global (interpKey : String) :
    topicKeyForInterp H interpKey ≠ globalTopic H := by
  refine topics_ne hash_inj ?_
  rw [utf8_append, List.getElem?_append_left (by decide)]
  decide

theorem topicKeyForInterp_not_circle (interpKey : String) :
    ¬ IsCircleTopic H (topicKeyForInterp H interpKey) := by
  rintro (same | ⟨circleId, same⟩)
  · refine topics_ne hash_inj ?_ same
    rw [utf8_append, List.getElem?_append_left (by decide)]
    decide
  · refine topics_ne hash_inj ?_ same
    rw [utf8_append, List.getElem?_append_left (by decide),
      List.getElem?_append_left (by decide)]
    decide

theorem topicForCircle_injective {a b : Bytes32} (h : topicForCircle H a = topicForCircle H b) :
    a = b := by
  have bytes := List.append_cancel_left (hash_inj h)
  exact Vector.toArray_inj.1 (Array.toList_inj.1 bytes)

theorem topicForCircle_ne_directory (circleId : Bytes32) :
    topicForCircle H circleId ≠ circleDirectoryTopic H := by
  intro same
  have byte : (utf8 "zodia:v1:circle:" ++ circleId.toList)[15]? =
      (utf8 "zodia:v1:circle-directory")[15]? := congrArg (fun l => l[15]?) (hash_inj same)
  rw [List.getElem?_append_left (by decide)] at byte
  exact absurd byte (by decide)

end Topics

/-! ## Two groups of authors -/

/-- The step keeps to the group `circleUsers`: the node publishes no `InterpOp`, and no
`DocOp` into log 0; an interpretation operation arrives on no circle topic, and is put
into log 0 only for an author outside the group; a circle operation arrives for an
author of the group, and not on the global topic. -/
def Separated (circleUsers : Set Bytes32) : NodeEvent Digest Args → Prop
  | .publish .. => False
  | .publishDoc interpKey .. => logIdForKey H interpKey ≠ 0
  | .received topic logId op =>
    match op.header.extensions with
    | .interp _ => ¬ IsCircleTopic H topic ∧ (logId = 0 → op.header.verifyingKey ∉ circleUsers)
    | .circle _ => topic ≠ globalTopic H ∧ op.header.verifyingKey ∈ circleUsers
  | _ => True

/-- What an entry of a log may be. -/
def EntryFits (circleUsers : Set Bytes32) (author : Bytes32) (logId : UInt64) :
    Bool → Prop
  | true => logId = 0 ∧ author ∈ circleUsers
  | false => logId = 0 → author ∉ circleUsers

/-- Which log a topic may lead to. -/
def TopicFits (circleUsers : Set Bytes32) (topic : Digest) (author : Bytes32) (logId : UInt64) :
    Prop :=
  (topic = globalTopic H → logId = 0 ∧ author ∉ circleUsers) ∧
    (IsCircleTopic H topic → logId = 0 ∧ author ∈ circleUsers)

/-- The entries and the associations of the store fit, and the global topic has log 0. -/
structure Node.Inv (circleUsers : Set Bytes32) (nd : Node Digest Args) : Prop where
  entries : ∀ e ∈ nd.store.operations, EntryFits circleUsers e.author e.logId e.isCircle
  topics : ∀ topic author logId, (topic, author, logId) ∈ nd.store.topics →
    TopicFits H circleUsers topic author logId
  pumps : ∀ logId, (globalTopic H, logId) ∈ nd.pumps → logId = 0

variable {H} {circleUsers : Set Bytes32} {nd : Node Digest Args}

theorem Node.Inv.logsDisjoint (h : nd.Inv H circleUsers) : LogsDisjoint H nd.store where
  one_kind e he e' he' author logId := by
    have fits := h.entries e he
    have fits' := h.entries e' he'
    rw [author, logId] at fits
    cases hk : e.isCircle <;> cases hk' : e'.isCircle <;>
      simp only [hk, hk', EntryFits] at fits fits' <;> grind
  global e served := by
    obtain ⟨zero, outside⟩ := (h.topics _ _ _ served.2).1 rfl
    have fits := h.entries e served.1
    cases hk : e.isCircle with
    | false => rfl
    | true =>
      rw [hk] at fits
      exact absurd fits.2 outside
  circle topic hc e served := by
    obtain ⟨zero, inside⟩ := (h.topics _ _ _ served.2).2 hc
    have fits := h.entries e served.1
    cases hk : e.isCircle with
    | true => rfl
    | false =>
      rw [hk] at fits
      exact absurd inside (fits zero)

section Steps

variable [DecidableEq Digest] {me : Bytes32}

theorem Node.Inv.openTopic (h : nd.Inv H circleUsers) {topic : Digest} {logId : UInt64}
    (hg : topic = globalTopic H → logId = 0) : (nd.openTopic topic logId).Inv H circleUsers := by
  unfold Node.openTopic
  split
  · exact h
  · refine ⟨h.entries, h.topics, fun l hl => ?_⟩
    rcases List.mem_cons.1 hl with same | old
    · obtain ⟨rfl, rfl⟩ := Prod.mk.inj same
      exact hg rfl
    · exact h.pumps l old

/-- A write to the store keeps the invariant when its entry fits. -/
theorem Node.Inv.insertOperation (h : nd.Inv H circleUsers) {op : Operation Digest Args}
    {logId : UInt64}
    (fits : EntryFits circleUsers op.header.verifyingKey logId op.header.extensions.isCircle) :
    ({ nd with store := nd.store.insertOperation op logId } : Node Digest Args).Inv H
      circleUsers where
  entries e he := by
    rcases LogStore.mem_insertOperation he with old | rfl
    · exact h.entries e old
    · exact fits
  topics := h.topics
  pumps := h.pumps

omit [DecidableEq Digest] in
theorem Node.Inv.associate (h : nd.Inv H circleUsers) {topic : Digest} {author : Bytes32}
    {logId : UInt64} (fits : TopicFits H circleUsers topic author logId) :
    ({ nd with store := nd.store.associate topic author logId } : Node Digest Args).Inv H
      circleUsers where
  entries := h.entries
  topics t a l hmem := by
    rcases List.mem_cons.1 hmem with same | old
    · obtain ⟨rfl, rest⟩ := Prod.mk.inj same
      obtain ⟨rfl, rfl⟩ := Prod.mk.inj rest
      exact fits
    · exact h.topics t a l old
  pumps := h.pumps

theorem Node.Inv.storeAndAssociate (h : nd.Inv H circleUsers) {op : Operation Digest Args}
    {topic : Digest} {logId : UInt64}
    (entry : EntryFits circleUsers op.header.verifyingKey logId op.header.extensions.isCircle)
    (fits : TopicFits H circleUsers topic op.header.verifyingKey logId) :
    ({ nd with store := nd.store.storeAndAssociate topic op.header.verifyingKey logId op } :
      Node Digest Args).Inv H circleUsers :=
  (h.insertOperation entry).associate fits

theorem Node.Inv.forge (h : nd.Inv H circleUsers) (hme : me ∈ circleUsers) (args : Args) :
    (nd.forge H me args).Inv H circleUsers :=
  h.insertOperation ⟨rfl, hme⟩

omit [DecidableEq Digest] in
/-- The node's circle log is advertised on circle topics only. -/
theorem Node.Inv.broadcastCircleOp (hash_inj : Function.Injective H.hash)
    (h : nd.Inv H circleUsers) (hme : me ∈ circleUsers) {topic : Digest}
    (hc : IsCircleTopic H topic) : (nd.broadcastCircleOp me topic).Inv H circleUsers :=
  h.associate ⟨fun same => absurd same.symm (globalTopic_ne_circle hash_inj hc),
    fun _ => ⟨rfl, hme⟩⟩

theorem Node.Inv.circleCall (hash_inj : Function.Injective H.hash) (h : nd.Inv H circleUsers)
    (hme : me ∈ circleUsers) (circleId : Bytes32) (forged : List Args) :
    (nd.circleCall H me circleId forged).Inv H circleUsers := by
  have topic : IsCircleTopic H (topicForCircle H circleId) := .inr ⟨circleId, rfl⟩
  exact Node.circleCall_keeps (h.openTopic fun _ => rfl) (fun _ args h => h.forge hme args)
    (fun _ h => h.broadcastCircleOp hash_inj hme topic) forged

theorem Node.Inv.spawn (hash_inj : Function.Injective H.hash) (h : nd.Inv H circleUsers)
    (hme : me ∈ circleUsers) (keyBundle : Args) :
    (Node.spawn H me nd.store keyBundle).Inv H circleUsers := by
  have closed : (⟨nd.store, [], []⟩ : Node Digest Args).Inv H circleUsers :=
    ⟨h.entries, h.topics, by simp⟩
  exact (((closed.openTopic fun _ => rfl).openTopic fun _ => rfl).forge hme
    keyBundle).broadcastCircleOp hash_inj hme (.inl rfl)

theorem Node.Inv.publishDoc (hash_inj : Function.Injective H.hash) (h : nd.Inv H circleUsers)
    {interpKey : String} (hlog : logIdForKey H interpKey ≠ 0) (payload : Bytes) (now : ℕ) :
    (nd.publishDoc H me interpKey payload now).Inv H circleUsers := by
  have ne := topicKeyForInterp_ne_global hash_inj interpKey
  have opened : (nd.subscribe H interpKey).Inv H circleUsers :=
    h.openTopic fun same => absurd same ne
  exact opened.storeAndAssociate (fun zero => absurd zero hlog)
    ⟨fun same => absurd same ne,
      fun hc => absurd hc (topicKeyForInterp_not_circle hash_inj interpKey)⟩

theorem Node.Inv.operationReceived (h : nd.Inv H circleUsers) {topic : Digest} {logId : UInt64}
    {op : Operation Digest Args}
    (pump : (topic, logId) ∈ nd.pumps) (sep : Separated H circleUsers (.received topic logId op)) :
    (nd.operationReceived topic logId op).Inv H circleUsers := by
  unfold Node.operationReceived
  cases hx : op.header.extensions with
  | interp timestamp =>
    simp only [Separated, hx] at sep
    refine h.storeAndAssociate (by rw [hx]; exact sep.2) ⟨?_, fun hc => absurd hc sep.1⟩
    rintro rfl
    have zero := h.pumps logId pump
    exact ⟨zero, sep.2 zero⟩
  | circle args =>
    simp only [Separated, hx] at sep
    exact h.storeAndAssociate (by rw [hx]; exact ⟨rfl, sep.2⟩)
      ⟨fun same => absurd same sep.1, fun _ => ⟨rfl, sep.2⟩⟩

theorem Node.Inv.step (hash_inj : Function.Injective H.hash) (hme : me ∈ circleUsers)
    (h : nd.Inv H circleUsers) {e : NodeEvent Digest Args} (enabled : nd.Enabled e)
    (sep : Separated H circleUsers e) : (nd.step H me e).Inv H circleUsers := by
  cases e with
  | restart keyBundle => exact h.spawn hash_inj hme keyBundle
  | subscribe interpKey =>
    exact h.openTopic fun same => absurd same (topicKeyForInterp_ne_global hash_inj interpKey)
  | unsubscribe interpKey => exact ⟨h.entries, h.topics, h.pumps⟩
  | publish payload now => exact sep.elim
  | publishDoc interpKey payload now => exact h.publishDoc hash_inj sep payload now
  | openCircle circleId => exact h.openTopic fun _ => rfl
  | circleCall circleId forged => exact h.circleCall hash_inj hme circleId forged
  | forge args => exact h.forge hme args
  | received topic logId op => exact h.operationReceived enabled sep
  | prune cutoff =>
    exact ⟨fun e he => h.entries e (LogStore.mem_pruneOlderThan he), h.topics, h.pumps⟩

end Steps

/-- In every run from a fresh store whose steps keep to the two groups of authors, no
log mixes the kinds and each topic leads to logs of its kind. -/
theorem logsDisjoint_of_separated [DecidableEq Digest] (hash_inj : Function.Injective H.hash)
    {me : Bytes32} (circleUsers : Set Bytes32) (hme : me ∈ circleUsers) (keyBundle : Args)
    (es : List (NodeEvent Digest Args))
    (run : Along (Node.step H me) (fun nd e => nd.Enabled e ∧ Separated H circleUsers e)
      (Node.spawn H me LogStore.empty keyBundle) es) :
    LogsDisjoint H
      (exec (Node.step H me) (Node.spawn H me LogStore.empty keyBundle) es).store := by
  have fresh : (⟨LogStore.empty, [], []⟩ : Node Digest Args).Inv H circleUsers :=
    ⟨by simp [LogStore.empty], by simp [LogStore.empty], by simp⟩
  have inv := exec_invariant (fun nd e (h : nd.Inv H circleUsers) ok =>
    h.step hash_inj hme ok.1 ok.2) (fresh.spawn hash_inj hme keyBundle) run
  exact inv.logsDisjoint

/-! ## A concrete node -/

/-- Every byte string is its own hash, and a header is named by its kind and position. -/
def symbolicHashes : Hashes Bytes Unit where
  hash := id
  low64 b := (b.take 8).foldr (fun x n => x.toUInt64 + 256 * n) 0
  header h := [if h.extensions.isCircle then 1 else 0, UInt8.ofNat h.seqNum]

/-- The node shares with a circle and receives an interpretation of somebody else. -/
theorem logsDisjoint_of_share :
    LogsDisjoint symbolicHashes
      (exec (Node.step symbolicHashes (Vector.replicate 32 1))
        (Node.spawn symbolicHashes (Vector.replicate 32 1) LogStore.empty ())
        [.circleCall (Vector.replicate 32 9) [()],
         .received (globalTopic symbolicHashes) 0
          ⟨[7], ⟨Vector.replicate 32 2, 1, none, 0, none, .interp 5⟩, some [0]⟩]).store := by
  refine logsDisjoint_of_separated Function.injective_id {Vector.replicate 32 1} rfl () _
    ⟨⟨trivial, trivial⟩, ⟨?_, ?_, ?_⟩, trivial⟩
  · change (globalTopic symbolicHashes, 0) ∈ Node.pumps _
    decide
  · exact fun hc => globalTopic_ne_circle Function.injective_id hc rfl
  · exact fun _ same => absurd (congrArg (fun v => v[0]) same) (by decide)

/-- Publishing one interpretation puts it into the log that holds the key bundle. -/
theorem publish_mixes_logs :
    Function.Injective symbolicHashes.hash ∧ ¬ LogsDisjoint symbolicHashes
      (exec (Node.step symbolicHashes (Vector.replicate 32 1))
        (Node.spawn symbolicHashes (Vector.replicate 32 1) LogStore.empty ())
        [.publish [0] 5]).store := by
  refine ⟨Function.injective_id, fun disjoint => ?_⟩
  -- the key bundle of the start, served on the global topic after the publish
  have bundle := disjoint.global
    ⟨⟨[1, 0], ⟨Vector.replicate 32 1, 0, none, 0, none, .circle ()⟩, none⟩, 0⟩
    ⟨Table.mem_insertOrIgnore.2 (.inl (Table.mem_insertOrIgnore.2
      (.inr ⟨rfl, by simp [Table.Free, LogStore.empty]⟩))), List.mem_cons_self⟩
  exact absurd bundle (by decide)

end Zodia.Sync
