import Mathlib.Data.Finset.Insert
import Zodia.Lib.Causal
import Zodia.Sync.Node

/-!
# Delivery of circle operations

The circle branch of a topic's pump. An operation that arrives is persisted first, then
handed to the circle manager, whose new state is persisted in turn and whose application
events go to the app. When the manager fails, the pump logs it and turns to the next
arrival: the operation stays in the store and is not tried again. The manager is that of
the spaces library, which decides by its own state whether an operation can be processed.

Arrivals are handled one after the other, also those of different topics.

## Main definitions

* `Manager`, `Manager.Contract` — the manager and what is relied on of it.
* `CircleNode.operationReceived` — what a pump does with one arrival.
* `CircleSet` — a finite set of operations, closed under dependencies.
* `Applied` — every message was surfaced once and the state is the agreed one.

## Main results

* `circle_applied_iff` — a set is applied exactly if it arrives in an order that respects the
  dependencies.
* `applied_in_every_order_iff` — it is applied in any order exactly if there are none inside it.
-/

namespace Zodia.Sync

open Lib

variable {Digest Args Groups Space : Type}

/-- An operation of the circle traffic. -/
structure CircleOperation (Digest Args : Type) where
  op : Operation Digest Args
  isCircle : op.header.extensions.isCircle = true

def CircleOperation.hash (op : CircleOperation Digest Args) : Digest := op.op.hash
def CircleOperation.author (op : CircleOperation Digest Args) : Bytes32 := op.op.header.verifyingKey

/-- An event of the manager: content of a space, or a change of members or key bundles. -/
inductive CircleEvent where
  | application (spaceId : Bytes32) (data : Bytes)
  | other
  deriving DecidableEq

/-- `CircleContentReceived`: decrypted content on its way to the app. -/
structure CircleContent (Digest : Type) where
  spaceId : Bytes32
  opId : Digest
  author : Bytes32
  plaintext : Bytes
  deriving DecidableEq

/-- The persisted state: the one of the groups and one for each space. -/
structure CircleState (Groups Space : Type) where
  groups : Option Groups
  spaces : Bytes32 → Option Space

def CircleState.persistGroupsState (c : CircleState Groups Space) (y : Groups) :
    CircleState Groups Space := { c with groups := some y }

def CircleState.persistSpaceState (c : CircleState Groups Space) (spaceId : Bytes32) (y : Space) :
    CircleState Groups Space := { c with spaces := Function.update c.spaces spaceId (some y) }

/-- What `process` returns: the states that changed and the events. -/
structure Processed (Groups Space : Type) where
  groupsY : Option Groups
  spaceY : Option (Bytes32 × Space)
  events : List CircleEvent

/-- Persist what an operation changed. -/
def Processed.persist (r : Processed Groups Space) (c : CircleState Groups Space) :
    CircleState Groups Space :=
  let c := match r.groupsY with
    | some y => c.persistGroupsState y
    | none => c
  match r.spaceY with
  | some (spaceId, y) => c.persistSpaceState spaceId y
  | none => c

/-- `Manager::process`, which reads the operations and the state of the store. -/
structure Manager (Digest Args Groups Space : Type) where
  process : LogStore Digest Args → CircleState Groups Space → CircleOperation Digest Args →
    Option (Processed Groups Space)

/-! ## The pump -/

/-- The store and the circle state of a node, and the content it sent to the app. -/
structure CircleNode (Digest Args Groups Space : Type) where
  store : LogStore Digest Args
  circle : CircleState Groups Space
  inbound : List (CircleContent Digest)

section Pump

variable [DecidableEq Digest] (M : Manager Digest Args Groups Space)

def LogStore.persistReceivedAndAssociate (st : LogStore Digest Args) (topic : Digest)
    (op : CircleOperation Digest Args) : LogStore Digest Args :=
  st.storeAndAssociate topic op.author circleLogId op.op

/-- Process an operation and persist what it changed. -/
def processAndPersist (st : LogStore Digest Args) (c : CircleState Groups Space)
    (op : CircleOperation Digest Args) : Option (CircleState Groups Space × List CircleEvent) :=
  (M.process st c op).map fun r => (r.persist c, r.events)

/-- A message of a space as content that `op` carried. -/
def CircleOperation.content (op : CircleOperation Digest Args) (message : Bytes32 × Bytes) :
    CircleContent Digest := ⟨message.1, op.hash, op.author, message.2⟩

/-- What an event of `op` sends to the app; other events are only logged. -/
def surface (op : CircleOperation Digest Args) : CircleEvent → Option (CircleContent Digest)
  | .application spaceId data => some (op.content (spaceId, data))
  | .other => none

/-- What the pump of a topic does with a circle operation that arrives on it. -/
def CircleNode.operationReceived (nd : CircleNode Digest Args Groups Space) (topic : Digest)
    (op : CircleOperation Digest Args) : CircleNode Digest Args Groups Space :=
  let store := nd.store.persistReceivedAndAssociate topic op
  match processAndPersist M store nd.circle op with
  | some (circle, events) => ⟨store, circle, nd.inbound ++ events.filterMap (surface op)⟩
  -- stored, and never looked at again
  | none => { nd with store := store }

/-- The node after the arrivals, in their order. -/
def CircleNode.after (nd : CircleNode Digest Args Groups Space)
    (arrivals : List (Digest × CircleOperation Digest Args)) :
    CircleNode Digest Args Groups Space :=
  exec (fun nd arrival => nd.operationReceived M arrival.1 arrival.2) nd arrivals

@[simp] theorem after_nil (nd : CircleNode Digest Args Groups Space) : nd.after M [] = nd := rfl

@[simp] theorem after_cons (nd : CircleNode Digest Args Groups Space)
    (arrival : Digest × CircleOperation Digest Args)
    (arrivals : List (Digest × CircleOperation Digest Args)) :
    nd.after M (arrival :: arrivals) =
      (nd.operationReceived M arrival.1 arrival.2).after M arrivals := rfl

end Pump

/-! ## What is relied on of the manager -/

/-- `Manager::process` fails on an operation whose dependencies were not processed, and
succeeds once they were, as long as the store holds them. What it persists and surfaces
is a function of the circle state and the operation, and operations that do not depend on
each other commute. -/
structure Manager.Contract (M : Manager Digest Args Groups Space) where
  dependencies : CircleOperation Digest Args → Set Digest
  /-- The message an application operation carries to this device. -/
  message : CircleOperation Digest Args → Option (Bytes32 × Bytes)
  /-- The operations processed to reach a state. -/
  taken : CircleState Groups Space → Set Digest
  /-- The state that processing an operation leads to. -/
  next : CircleState Groups Space → CircleOperation Digest Args → CircleState Groups Space
  fails : ∀ st c op, ¬ dependencies op ⊆ taken c → M.process st c op = none
  succeeds : ∀ st c op, dependencies op ⊆ taken c →
    (∀ k ∈ dependencies op, ∃ e ∈ st.operations, e.op.hash = k) → (M.process st c op).isSome
  persists : ∀ st c op r, M.process st c op = some r → r.persist c = next c op
  emits : ∀ st c op r, M.process st c op = some r →
    r.events.filterMap (surface op) = ((message op).map op.content).toList
  takes : ∀ c op, dependencies op ⊆ taken c → taken (next c op) = insert op.hash (taken c)
  commutes : ∀ c a b, a.hash ≠ b.hash → a.hash ∉ taken c → b.hash ∉ taken c →
    dependencies a ⊆ taken c → dependencies b ⊆ taken c → next (next c a) b = next (next c b) a

namespace Manager.Contract

variable {M : Manager Digest Args Groups Space} (L : M.Contract)

/-- The content of an application operation. -/
def content (op : CircleOperation Digest Args) : Option (CircleContent Digest) :=
  (L.message op).map op.content

theorem opId_of_content {op : CircleOperation Digest Args} {c : CircleContent Digest}
    (h : L.content op = some c) : c.opId = op.hash := by
  obtain ⟨m, -, rfl⟩ := Option.map_eq_some_iff.1 h
  rfl

open Classical in
/-- The circle state as a replica: an operation that is not ready is dropped. -/
noncomputable def replica :
    Replica (CircleState Groups Space) (CircleOperation Digest Args) Digest where
  step c op := if L.dependencies op ⊆ L.taken c then L.next c op else c
  key := CircleOperation.hash
  deps := L.dependencies
  taken := L.taken
  blocked c op blocked := if_neg blocked
  takes c op ready := by rw [if_pos ready, L.takes c op ready]
  commutes c a b ne newA newB readyA readyB := by
    have stillB : L.dependencies b ⊆ L.taken (L.next c a) := by
      rw [L.takes c a readyA]
      exact readyB.trans (Set.subset_insert _ _)
    have stillA : L.dependencies a ⊆ L.taken (L.next c b) := by
      rw [L.takes c b readyB]
      exact readyA.trans (Set.subset_insert _ _)
    rw [if_pos readyA, if_pos readyB, if_pos stillA, if_pos stillB]
    exact L.commutes c a b ne newA newB readyA readyB

end Manager.Contract

section Delivery

variable [DecidableEq Digest] {M : Manager Digest Args Groups Space} (L : M.Contract)
  {nd : CircleNode Digest Args Groups Space}

/-- Every processed operation is in the store. -/
def CircleNode.Stored (nd : CircleNode Digest Args Groups Space) : Prop :=
  ∀ k ∈ L.taken nd.circle, ∃ e ∈ nd.store.operations, e.op.hash = k

/-- A finite set of circle operations that are new to the node. They are closed under
dependencies and named by distinct hashes; a hash commits to the dependencies, so an
operation is younger than all of them. -/
structure CircleSet (nd : CircleNode Digest Args Groups Space) where
  operations : List (CircleOperation Digest Args)
  nodup : (operations.map CircleOperation.hash).Nodup
  unseen : ∀ op ∈ operations, ∀ e ∈ nd.store.operations, e.op.hash ≠ op.hash
  unsent : ∀ op ∈ operations, ∀ c ∈ nd.inbound, c.opId ≠ op.hash
  closed : ∀ op ∈ operations,
    L.dependencies op ⊆ L.taken nd.circle ∪ keys CircleOperation.hash operations
  younger : ∃ age : Digest → ℕ, ∀ op ∈ operations, ∀ k ∈ L.dependencies op, age k < age op.hash

/-! ## One arrival -/

variable {L}

theorem stored_next (stored : nd.Stored L) (topic : Digest) (op : CircleOperation Digest Args) :
    (∀ k ∈ L.taken nd.circle, ∃ e ∈ (nd.store.persistReceivedAndAssociate topic op).operations,
      e.op.hash = k) ∧
    ∃ e ∈ (nd.store.persistReceivedAndAssociate topic op).operations, e.op.hash = op.hash := by
  constructor
  · intro k hk
    obtain ⟨e, he, same⟩ := stored k hk
    exact ⟨e, Table.mem_insertOrIgnore.2 (.inl he), same⟩
  · by_cases free : nd.store.operations.Free op.hash
    · exact ⟨⟨op.op, circleLogId⟩, Table.mem_insertOrIgnore.2 (.inr ⟨rfl, free⟩), rfl⟩
    · obtain ⟨e, he, same⟩ : ∃ e ∈ nd.store.operations, e.op.hash = op.hash := by
        simpa [Table.Free] using free
      exact ⟨e, Table.mem_insertOrIgnore.2 (.inl he), same⟩

/-- An operation that is ready is processed and its content surfaced. -/
theorem operationReceived_ready (stored : nd.Stored L) (topic : Digest)
    {op : CircleOperation Digest Args} (ready : L.dependencies op ⊆ L.taken nd.circle) :
    (nd.operationReceived M topic op).circle = L.next nd.circle op ∧
      (nd.operationReceived M topic op).inbound = nd.inbound ++ (L.content op).toList := by
  have present := (stored_next stored topic op).1
  obtain ⟨r, hr⟩ := Option.isSome_iff_exists.1
    (L.succeeds (nd.store.persistReceivedAndAssociate topic op) nd.circle op ready
      fun k hk => present k (ready hk))
  have persists := L.persists _ _ _ _ hr
  have emits := L.emits _ _ _ _ hr
  simp [CircleNode.operationReceived, processAndPersist, hr, persists, emits,
    Manager.Contract.content]

/-- An operation that is not ready is stored and nothing else. -/
theorem operationReceived_blocked (topic : Digest) {op : CircleOperation Digest Args}
    (blocked : ¬ L.dependencies op ⊆ L.taken nd.circle) :
    (nd.operationReceived M topic op).circle = nd.circle ∧
      (nd.operationReceived M topic op).inbound = nd.inbound := by
  have fails := L.fails (nd.store.persistReceivedAndAssociate topic op) nd.circle op blocked
  simp [CircleNode.operationReceived, processAndPersist, fails]

/-- The circle state of the node moves as the replica does. -/
theorem circle_operationReceived (stored : nd.Stored L) (topic : Digest)
    (op : CircleOperation Digest Args) :
    (nd.operationReceived M topic op).circle = L.replica.step nd.circle op := by
  by_cases ready : L.dependencies op ⊆ L.taken nd.circle
  · rw [(operationReceived_ready stored topic ready).1]
    exact (if_pos ready).symm
  · rw [(operationReceived_blocked topic ready).1]
    exact (if_neg ready).symm

theorem CircleNode.Stored.operationReceived (stored : nd.Stored L) (topic : Digest)
    (op : CircleOperation Digest Args) : (nd.operationReceived M topic op).Stored L := by
  have store : (nd.operationReceived M topic op).store =
      nd.store.persistReceivedAndAssociate topic op := by
    unfold CircleNode.operationReceived
    dsimp only
    split <;> rfl
  obtain ⟨old, own⟩ := stored_next stored topic op
  intro k hk
  rw [store]
  rw [circle_operationReceived stored] at hk
  rcases Replica.taken_step_subset (R := L.replica) nd.circle op hk with rfl | before
  · exact own
  · exact old k before

/-! ## All arrivals -/

variable {arrivals : List (Digest × CircleOperation Digest Args)}

/-- The circle state after a run is that of the replica. -/
theorem circle_after (stored : nd.Stored L) :
    (nd.after M arrivals).circle = exec L.replica.step nd.circle (arrivals.map Prod.snd) := by
  induction arrivals generalizing nd with
  | nil => rfl
  | cons arrival arrivals ih =>
    have moves := circle_operationReceived stored arrival.1 arrival.2
    rw [List.map_cons, exec_cons, after_cons, ← moves]
    exact ih (stored.operationReceived arrival.1 arrival.2)

/-- In an order that respects the dependencies the content of every operation is surfaced. -/
theorem inbound_after (stored : nd.Stored L)
    (respects : Respects CircleOperation.hash L.dependencies (L.taken nd.circle)
      (arrivals.map Prod.snd)) :
    (nd.after M arrivals).inbound =
      nd.inbound ++ (arrivals.map Prod.snd).filterMap L.content := by
  induction arrivals generalizing nd with
  | nil => simp
  | cons arrival arrivals ih =>
    obtain ⟨circle, inbound⟩ := operationReceived_ready stored arrival.1 respects.1
    have rest := respects.2
    rw [← L.takes nd.circle _ respects.1, ← circle] at rest
    rw [after_cons, ih (stored.operationReceived arrival.1 arrival.2) rest, inbound]
    cases h : L.content arrival.2 <;> simp [h]

/-- Of the content of distinct operations one operation has its own. -/
theorem filter_content {l : List (CircleOperation Digest Args)}
    (nodup : (l.map CircleOperation.hash).Nodup) {op : CircleOperation Digest Args} (hop : op ∈ l) :
    (l.filterMap L.content).filter (fun c => c.opId = op.hash) = (L.content op).toList := by
  induction l with
  | nil => cases hop
  | cons a l ih =>
    obtain ⟨new, nodup⟩ := List.nodup_cons.1 nodup
    have own : ((L.content a).toList ++ l.filterMap L.content).filter (fun c => c.opId = op.hash) =
        (L.content op).toList := by
      rw [List.filter_append]
      rcases List.mem_cons.1 hop with rfl | hop
      · -- the content of the others is named by other hashes
        have others : (l.filterMap L.content).filter (fun c => c.opId = op.hash) = [] := by
          refine List.filter_eq_nil_iff.2 fun c hc => ?_
          obtain ⟨b, hb, content⟩ := List.mem_filterMap.1 hc
          have : c.opId = b.hash := L.opId_of_content content
          have differ : b.hash ≠ op.hash := fun same => new (same ▸ List.mem_map_of_mem hb)
          simpa [this] using differ
        cases h : L.content op with
        | none => simp [others]
        | some c => simp [others, L.opId_of_content h]
      · have differ : a.hash ≠ op.hash := fun same => new (same ▸ List.mem_map_of_mem hop)
        have head : (L.content a).toList.filter (fun c => c.opId = op.hash) = [] := by
          cases h : L.content a with
          | none => simp
          | some c => simp [L.opId_of_content h, differ]
        rw [head, ih nodup hop, List.nil_append]
    cases h : L.content a <;> simpa [h] using own

/-! ## Any order of arrival -/

variable (S : CircleSet L nd)

/-- The operations of the set arrive, each once, on whichever topics. -/
def CircleSet.Arrive (arrivals : List (Digest × CircleOperation Digest Args)) : Prop :=
  (arrivals.map Prod.snd).Perm S.operations

/-- Every operation arrives after those it depends on. -/
def InOrder (L : M.Contract) (nd : CircleNode Digest Args Groups Space)
    (arrivals : List (Digest × CircleOperation Digest Args)) : Prop :=
  Respects CircleOperation.hash L.dependencies (L.taken nd.circle) (arrivals.map Prod.snd)

/-- Every message of the set was surfaced exactly once, and the circle state is the one
that every order which respects the dependencies leads to. -/
structure Applied (arrivals : List (Digest × CircleOperation Digest Args)) : Prop where
  surfaced : ∀ op ∈ S.operations, ∀ c, L.content op = some c →
    (nd.after M arrivals).inbound.filter (fun d => d.opId = op.hash) = [c]
  agrees : ∀ arrivals', S.Arrive arrivals' → InOrder L nd arrivals' →
    (nd.after M arrivals).circle = (nd.after M arrivals').circle

variable {S}

omit [DecidableEq Digest] in
theorem CircleSet.fresh (stored : nd.Stored L) (h : S.Arrive arrivals) :
    L.replica.Fresh nd.circle (arrivals.map Prod.snd) := by
  refine Replica.Fresh.perm ⟨S.nodup, fun op hop taken => ?_⟩ h
  obtain ⟨e, he, same⟩ := stored _ taken
  exact S.unseen op hop e he same

omit [DecidableEq Digest] in
/-- There is an order that respects the dependencies. -/
theorem CircleSet.exists_inOrder (S : CircleSet L nd) (topic : Digest) :
    ∃ arrivals, S.Arrive arrivals ∧ InOrder L nd arrivals := by
  obtain ⟨age, older⟩ := S.younger
  obtain ⟨l, perm, respects⟩ := exists_perm_respects age S.closed older
  have ops : (l.map fun op => (topic, op)).map Prod.snd = l := by simp [Function.comp_def]
  exact ⟨l.map fun op => (topic, op), by rwa [Arrive, ops], by rwa [InOrder, ops]⟩

theorem InOrder.applied (stored : nd.Stored L) (h : S.Arrive arrivals)
    (order : InOrder L nd arrivals) : Applied S arrivals where
  surfaced op hop c content := by
    have before : nd.inbound.filter (fun d => d.opId = op.hash) = [] :=
      List.filter_eq_nil_iff.2 fun d hd => by simpa using S.unsent op hop d hd
    have since := filter_content (L := L) (S.fresh stored h).nodup (h.mem_iff.2 hop)
    rw [inbound_after stored order, List.filter_append, before, since, content]
    rfl
  agrees arrivals' h' order' := by
    rw [circle_after stored, circle_after stored]
    exact Replica.exec_eq_of_perm (h.trans h'.symm) (S.fresh stored h) order order'

/-- An operation that overtook one of its dependencies is missing from the circle state. -/
theorem Applied.inOrder (stored : nd.Stored L) (h : S.Arrive arrivals)
    (applied : Applied S arrivals) : InOrder L nd arrivals := by
  cases arrivals with
  | nil => trivial
  | cons first rest =>
    obtain ⟨arrivals', h', order'⟩ := S.exists_inOrder first.1
    have fresh := S.fresh stored h
    refine (Replica.taken_exec_iff fresh).1 fun op hop => ?_
    have same := applied.agrees arrivals' h' order'
    rw [circle_after stored, circle_after stored] at same
    rw [same]
    exact (Replica.taken_exec_iff (S.fresh stored h')).2 order' op
      ((h'.trans h.symm).mem_iff.2 hop)

/-- The operations of the set may arrive in any order exactly when none of them depends on
another. -/
theorem applied_in_every_order_iff (stored : nd.Stored L) (S : CircleSet L nd) (topic : Digest) :
    (∀ arrivals, S.Arrive arrivals → Applied S arrivals) ↔
      ∀ op ∈ S.operations, L.dependencies op ⊆ L.taken nd.circle := by
  rw [← forall_perm_respects_iff CircleOperation.hash]
  constructor
  · intro every l perm
    have ops : (l.map fun op => (topic, op)).map Prod.snd = l := by simp [Function.comp_def]
    have arrive : S.Arrive (l.map fun op => (topic, op)) := by rwa [CircleSet.Arrive, ops]
    have order := (every _ arrive).inOrder stored arrive
    rwa [InOrder, ops] at order
  · intro every arrivals h
    exact InOrder.applied stored h (every _ h)

/-- Every message is surfaced once and the circle state agrees with every order that respects
the dependencies exactly when the order of arrival is itself such an order. -/
theorem circle_applied_iff (stored : nd.Stored L) (S : CircleSet L nd)
    (h : S.Arrive arrivals) : Applied S arrivals ↔ InOrder L nd arrivals :=
  ⟨Applied.inOrder stored h, InOrder.applied stored h⟩

end Delivery

/-! ### A message that overtakes the operation it depends on -/

section Overtaking

/-- What an operation depends on, and the message it carries. -/
structure SetArgs where
  dependencies : Finset ℕ
  message : Option (Bytes32 × Bytes)

def SetArgs.of (op : CircleOperation ℕ SetArgs) : SetArgs :=
  match op.op.header.extensions with
  | .circle args => args
  | .interp _ => ⟨∅, none⟩

/-- A manager whose state is the set of the operations it has processed. -/
def setManager : Manager ℕ SetArgs (Finset ℕ) Unit where
  process _ c op :=
    let taken := c.groups.getD ∅
    if (SetArgs.of op).dependencies ⊆ taken then
      let events := (SetArgs.of op).message.map fun m => CircleEvent.application m.1 m.2
      some ⟨some (insert op.hash taken), none, events.toList⟩
    else none

theorem setManager_process {st : LogStore ℕ SetArgs} {c : CircleState (Finset ℕ) Unit}
    {op : CircleOperation ℕ SetArgs} {r : Processed (Finset ℕ) Unit}
    (h : setManager.process st c op = some r) :
    r.groupsY = some (insert op.hash (c.groups.getD ∅)) ∧ r.spaceY = none ∧
      r.events = ((SetArgs.of op).message.map fun m => CircleEvent.application m.1 m.2).toList := by
  simp only [setManager] at h
  split_ifs at h
  obtain rfl := Option.some.inj h
  exact ⟨rfl, rfl, rfl⟩

def setContract : setManager.Contract where
  dependencies op := (SetArgs.of op).dependencies
  message op := (SetArgs.of op).message
  taken c := c.groups.getD ∅
  next c op := c.persistGroupsState (insert op.hash (c.groups.getD ∅))
  fails st c op h := if_neg (by simpa using h)
  succeeds st c op h _ := by
    have ready : (SetArgs.of op).dependencies ⊆ c.groups.getD ∅ := by simpa using h
    simp [setManager, ready]
  persists st c op r h := by
    obtain ⟨groups, space, -⟩ := setManager_process h
    simp [Processed.persist, groups, space]
  emits st c op r h := by
    obtain ⟨-, -, events⟩ := setManager_process h
    rw [events]
    cases (SetArgs.of op).message <;> rfl
  takes c op _ := by simp [CircleState.persistGroupsState]
  commutes c a b _ _ _ _ _ := by simp [CircleState.persistGroupsState, Finset.insert_comm]

private def header (args : SetArgs) : Header ℕ SetArgs :=
  ⟨Vector.replicate 32 1, 0, none, 0, none, .circle args⟩

/-- The operation `k`, whose message depends on the operations of `deps`. -/
private def operation (k : ℕ) (deps : Finset ℕ) (message : Option (Bytes32 × Bytes)) :
    CircleOperation ℕ SetArgs := ⟨⟨k, header ⟨deps, message⟩, none⟩, rfl⟩

private def membership : CircleOperation ℕ SetArgs := operation 1 ∅ none

private def greeting : CircleOperation ℕ SetArgs :=
  operation 2 {1} (some (Vector.replicate 32 0, [104, 105]))

private def startNode : CircleNode ℕ SetArgs (Finset ℕ) Unit :=
  ⟨LogStore.empty, ⟨none, fun _ => none⟩, []⟩

/-- A membership operation and a message that depends on it. -/
private def circle : CircleSet setContract startNode where
  operations := [membership, greeting]
  nodup := by decide
  unseen op _ e he := absurd he (Table.not_mem_empty e)
  unsent op _ c hc := absurd hc List.not_mem_nil
  closed op hop := by
    intro k hk
    rcases List.mem_pair.1 hop with rfl | rfl
    · exact absurd hk (by simp [setContract, membership, operation, SetArgs.of, header])
    · obtain rfl : k = 1 := by
        simpa [setContract, greeting, operation, SetArgs.of, header] using hk
      exact .inr ⟨membership, by simp, rfl⟩
  younger := by
    refine ⟨id, fun op hop k hk => ?_⟩
    rcases List.mem_pair.1 hop with rfl | rfl
    · exact absurd hk (by simp [setContract, membership, operation, SetArgs.of, header])
    · obtain rfl : k = 1 := by
        simpa [setContract, greeting, operation, SetArgs.of, header] using hk
      exact Nat.one_lt_two

theorem circle_applied_iff_greeting : Applied circle [(0, membership), (0, greeting)] := by
  have stored : startNode.Stored setContract := by
    intro k hk
    exact absurd hk (by simp [setContract, startNode])
  have arrive : circle.Arrive [(0, membership), (0, greeting)] := .refl _
  refine (circle_applied_iff stored circle arrive).2 ⟨?_, ?_, trivial⟩
  · simp [setContract, membership, operation, SetArgs.of, header]
  · simp [setContract, membership, greeting, operation, SetArgs.of, header, CircleOperation.hash]

/-- Delivered before the operation it depends on, the message never reaches the app. -/
theorem greeting_lost : ¬ ∀ arrivals, circle.Arrive arrivals → Applied circle arrivals := by
  intro every
  have applied := every [(0, greeting), (0, membership)] (.swap _ _ _)
  have surfaced := applied.surfaced greeting (by simp [circle]) _ rfl
  exact absurd surfaced (by decide)

end Overtaking

end Zodia.Sync
