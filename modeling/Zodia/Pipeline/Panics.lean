import Zodia.Pipeline.Stages

/-!
# Panics on the way of a received operation

One operation type carries two kinds of traffic and one store holds both, so three places of
the program rest on an operation being of the right kind: the timestamp of the materialisation
stage, and the two projections of an operation to the arguments of the circle manager. The pump
of a topic sends an operation the way of its kind, which keeps the first place and the
projection of the operation itself safe. The manager then looks up the operations that a circle
operation depends on, by hashes that its author has chosen.

## Main definitions

* `Panic`, `borrowCircleOperation`, `borrowExtensions` — the places that may panic.
* `Receiver`, `Receiver.step` — a node with the run loop of its pipeline.
* `NamesNoInterp` — no circle operation depends on an interpretation operation of the store.
-/

namespace Zodia.Pipeline

open Lib Sync Ops

variable {Digest Args : Type}

inductive Panic where
  | timestampExpect
  | circleOperationUnreachable
  | extensionsUnreachable
  deriving DecidableEq

/-- `Borrow` for a `CircleOperation`. -/
def borrowCircleOperation (op : Operation Digest Args) : Except Panic Args :=
  match op.header.extensions with
  | .circle args => .ok args
  | .interp _ => .error .circleOperationUnreachable

/-- `Borrow` for `ZodiaExtensions`, on what was fetched from the store. -/
def borrowExtensions : ZodiaExtensions Args → Except Panic Args
  | .circle args => .ok args
  | .interp _ => .error .extensionsUnreachable

/-- Receiving: the node, the operations that were sent to the run loop, the pipeline of the
run loop, and the panics so far. -/
structure Receiver (Digest Args : Type) where
  node : Node Digest Args
  inbound : List (Operation Digest Args)
  pipeline : ZodiaPipeline Digest Args
  panics : List Panic

/-- What happens to a node, an arrival that the store fails to persist, or a turn of the run
loop. -/
inductive ReceiverEvent (Digest Args : Type) where
  | node (e : NodeEvent Digest Args)
  | unstored (topic : Digest) (logId : UInt64) (op : Operation Digest Args)
  | turn

def Receiver.start (node : Node Digest Args) : Receiver Digest Args := ⟨node, [], .new, []⟩

section Step

variable [DecidableEq Digest] (H : Hashes Digest Args) (C : Codec Digest) (me : Bytes32)
  (dependencies : Args → List Digest) (r : Receiver Digest Args)

/-- The panic of fetching a dependency; one that is missing is none. -/
def lookUpPanic (st : LogStore Digest Args) (hash : Digest) : Option Panic :=
  match st.operations.find? hash with
  | none => none
  | some e =>
    match borrowExtensions e.op.header.extensions with
    | .ok _ => none
    | .error panic => some panic

/-- The manager reads the arguments of the operation, then fetches each dependency they name. -/
def processPanic (st : LogStore Digest Args) (op : Operation Digest Args) : Option Panic :=
  match borrowCircleOperation op with
  | .ok args => (dependencies args).findSome? (lookUpPanic st)
  | .error panic => some panic

/-- An operation arrives at the pump of a topic. An interpretation operation goes to the run
loop even when it was not persisted, a circle operation goes to the manager only if it was. A
panic ends the pump. -/
def Receiver.received (topic : Digest) (logId : UInt64) (op : Operation Digest Args)
    (persisted : Bool) : Receiver Digest Args :=
  if (topic, logId) ∈ r.node.pumps then
    let node := if persisted then r.node.operationReceived topic logId op else r.node
    match op.header.extensions with
    | .interp _ => { r with node := node, inbound := r.inbound ++ [op] }
    | .circle _ =>
      if persisted then
        match processPanic dependencies node.store op with
        | none => { r with node := node }
        | some panic =>
          { r with
            node := { node with pumps := node.pumps.erase (topic, logId) }
            panics := panic :: r.panics }
      else r
  else r

/-- The run loop feeds the next operation to the pipeline and takes its event. The pipeline is
drained, so it returns an event unless the stage panics. -/
def Receiver.turn : Receiver Digest Args :=
  match r.inbound with
  | [] => r
  | op :: inbound =>
    match r.pipeline.turn H C op with
    | some (_, pipeline) => { r with inbound := inbound, pipeline := pipeline }
    | none => { r with inbound := inbound, panics := .timestampExpect :: r.panics }

def Receiver.step (r : Receiver Digest Args) : ReceiverEvent Digest Args → Receiver Digest Args
  | .node (.received topic logId op) => r.received dependencies topic logId op true
  | .node (.restart keyBundle) =>
    ⟨Node.spawn H me r.node.store keyBundle, [], .new, r.panics⟩
  | .node e => { r with node := r.node.step H me e }
  | .unstored topic logId op => r.received dependencies topic logId op false
  | .turn => r.turn H C

end Step

/-- A circle operation that arrives on an open topic and is persisted depends on no operation of
the store that is of the other kind. -/
def NamesNoInterp (dependencies : Args → List Digest) (r : Receiver Digest Args) :
    ReceiverEvent Digest Args → Prop
  | .node (.received topic logId op) => (topic, logId) ∈ r.node.pumps →
    ∀ args, op.header.extensions = .circle args →
      ∀ e ∈ r.node.store.operations, e.op.hash ∈ dependencies args → e.isCircle = true
  | _ => True

/-- The pipeline is drained and fed with interpretation operations. -/
structure Receiver.Drained (r : Receiver Digest Args) : Prop where
  pipeline : r.pipeline = .new
  inbound : ∀ op ∈ r.inbound, op.header.extensions.isCircle = false

/-! ## The look-ups -/

section LookUps

variable [DecidableEq Digest] {dependencies : Args → List Digest} {st : LogStore Digest Args}
  {op : Operation Digest Args} {args : Args}

theorem lookUpPanic_eq_none {hash : Digest} :
    lookUpPanic st hash = none ↔ ∀ e ∈ st.operations, e.op.hash = hash → e.isCircle = true := by
  unfold lookUpPanic
  split
  · next missing =>
    exact iff_of_true rfl fun e he same => absurd same (Table.find?_eq_none.1 missing e he)
  · next e found =>
    obtain ⟨he, rfl⟩ := Table.find?_eq_some.1 found
    have only : ∀ e' ∈ st.operations, e'.op.hash = e.op.hash → e' = e :=
      fun e' he' same => Table.eq_of_key he' he same
    cases hx : e.op.header.extensions with
    | interp timestamp =>
      refine iff_of_false (by simp [borrowExtensions]) fun all => ?_
      simpa [LogEntry.isCircle, hx, ZodiaExtensions.isCircle] using all e he rfl
    | circle args =>
      refine iff_of_true rfl fun e' he' same => ?_
      rw [only e' he' same, LogEntry.isCircle, hx]
      rfl

theorem lookUpPanic_eq_some {hash : Digest} {panic : Panic} (h : lookUpPanic st hash = some panic) :
    panic = .extensionsUnreachable := by
  unfold lookUpPanic at h
  split at h
  · cases h
  · next e _ =>
    cases hx : e.op.header.extensions <;> simp [hx, borrowExtensions] at h
    exact h.symm

/-- A circle operation is processed without a panic exactly if every dependency that is in the
store is a circle operation. -/
theorem processPanic_eq_none (circle : op.header.extensions = .circle args) :
    processPanic dependencies st op = none ↔
      ∀ e ∈ st.operations, e.op.hash ∈ dependencies args → e.isCircle = true := by
  have borrowed : borrowCircleOperation op = .ok args := by rw [borrowCircleOperation, circle]
  rw [processPanic, borrowed]
  simp only [List.findSome?_eq_none_iff, lookUpPanic_eq_none]
  constructor
  · intro h e he named
    exact h e.op.hash named e he rfl
  · rintro h hash named e he rfl
    exact h e he named

theorem processPanic_eq_some {panic : Panic} (circle : op.header.extensions = .circle args)
    (h : processPanic dependencies st op = some panic) : panic = .extensionsUnreachable := by
  have borrowed : borrowCircleOperation op = .ok args := by rw [borrowCircleOperation, circle]
  rw [processPanic, borrowed] at h
  obtain ⟨hash, -, found⟩ := List.exists_of_findSome?_eq_some h
  exact lookUpPanic_eq_some found

end LookUps

/-! ## One step -/

section Steps

variable [DecidableEq Digest] {H : Hashes Digest Args} {C : Codec Digest} {me : Bytes32}
  {dependencies : Args → List Digest} {r : Receiver Digest Args} {topic : Digest} {logId : UInt64}
  {op : Operation Digest Args} {persisted : Bool}

/-! ### An arrival -/

theorem Receiver.received_closed (closed : (topic, logId) ∉ r.node.pumps) :
    r.received dependencies topic logId op persisted = r := if_neg closed

theorem Receiver.received_interp (opened : (topic, logId) ∈ r.node.pumps) {timestamp : ℕ}
    (interp : op.header.extensions = .interp timestamp) :
    r.received dependencies topic logId op persisted =
      { r with
        node := if persisted then r.node.operationReceived topic logId op else r.node
        inbound := r.inbound ++ [op] } := by
  simp only [Receiver.received, if_pos opened, interp]

theorem Receiver.received_unstored {args : Args} (circle : op.header.extensions = .circle args) :
    r.received dependencies topic logId op false = r := by
  simp [Receiver.received, circle]

variable (dependencies) in
/-- A circle operation that was persisted: the node stores it, and the pump ends if the manager
panics. -/
theorem Receiver.received_circle (opened : (topic, logId) ∈ r.node.pumps) {args : Args}
    (circle : op.header.extensions = .circle args) :
    ∃ node, r.received dependencies topic logId op true =
      { r with
        node := node
        panics := (processPanic dependencies (r.node.operationReceived topic logId op).store
          op).toList ++ r.panics } := by
  simp only [Receiver.received, if_pos opened, circle, if_true]
  cases processPanic dependencies (r.node.operationReceived topic logId op).store op with
  | none => exact ⟨_, rfl⟩
  | some panic => exact ⟨_, rfl⟩

theorem Receiver.Drained.received (h : r.Drained) :
    (r.received dependencies topic logId op persisted).Drained := by
  by_cases opened : (topic, logId) ∈ r.node.pumps
  · cases hx : op.header.extensions with
    | interp timestamp =>
      rw [Receiver.received_interp opened hx]
      refine ⟨h.pipeline, fun op' hop' => ?_⟩
      rcases List.mem_append.1 hop' with old | new
      · exact h.inbound op' old
      · rw [List.mem_singleton.1 new, hx]
        rfl
    | circle args =>
      cases persisted with
      | false => rwa [Receiver.received_unstored hx]
      | true =>
        obtain ⟨node, received⟩ := Receiver.received_circle dependencies opened hx
        rw [received]
        exact ⟨h.pipeline, h.inbound⟩
  · rwa [Receiver.received_closed opened]

/-- What the node stores on an arrival is of the kind of the arrival. -/
theorem processPanic_received {args : Args} (circle : op.header.extensions = .circle args) :
    processPanic dependencies (r.node.operationReceived topic logId op).store op = none ↔
      ∀ e ∈ r.node.store.operations, e.op.hash ∈ dependencies args → e.isCircle = true := by
  rw [processPanic_eq_none circle]
  have stored : ∀ e, e ∈ (r.node.operationReceived topic logId op).store.operations ↔
      e ∈ r.node.store.operations ∨
        e = ⟨op, circleLogId⟩ ∧ r.node.store.operations.Free op.hash := by
    intro e
    simp only [Node.operationReceived, circle]
    exact Table.mem_insertOrIgnore
  constructor
  · exact fun h e he => h e ((stored e).2 (.inl he))
  · intro h e he named
    rcases (stored e).1 he with old | ⟨rfl, -⟩
    · exact h e old named
    · rw [LogEntry.isCircle, circle]
      rfl

/-- An arrival panics in the look-ups of the manager only. -/
theorem Receiver.panics_received {panic : Panic}
    (h : panic ∈ (r.received dependencies topic logId op persisted).panics) :
    panic ∈ r.panics ∨ panic = .extensionsUnreachable := by
  by_cases opened : (topic, logId) ∈ r.node.pumps
  · cases hx : op.header.extensions with
    | interp timestamp =>
      rw [Receiver.received_interp opened hx] at h
      exact .inl h
    | circle args =>
      cases persisted with
      | false =>
        rw [Receiver.received_unstored hx] at h
        exact .inl h
      | true =>
        obtain ⟨node, received⟩ := Receiver.received_circle dependencies opened hx
        rw [received] at h
        rcases List.mem_append.1 h with new | old
        · exact .inr (processPanic_eq_some hx (Option.mem_toList.1 new))
        · exact .inl old
  · rw [Receiver.received_closed opened] at h
    exact .inl h

/-- An arrival panics exactly if it names an interpretation operation of the store. -/
theorem Receiver.panics_received_eq_nil (before : r.panics = []) :
    (r.received dependencies topic logId op true).panics = [] ↔
      NamesNoInterp dependencies r (.node (.received topic logId op)) := by
  by_cases opened : (topic, logId) ∈ r.node.pumps
  · cases hx : op.header.extensions with
    | interp timestamp =>
      rw [Receiver.received_interp opened hx]
      refine iff_of_true before fun _ args circle => ?_
      rw [hx] at circle
      cases circle
    | circle args =>
      obtain ⟨node, received⟩ := Receiver.received_circle dependencies opened hx
      rw [received]
      simp only [before, List.append_nil, Option.toList_eq_nil_iff, processPanic_received hx,
        NamesNoInterp, hx]
      constructor
      · rintro h - args' same
        cases same
        exact h
      · exact fun h => h opened args rfl
  · rw [Receiver.received_closed opened]
    exact iff_of_true before fun isOpen => absurd isOpen opened

/-! ### Any step -/

omit [DecidableEq Digest] in
/-- The run loop finds an event for every operation it is sent. -/
theorem Receiver.Drained.turn (h : r.Drained) :
    (r.turn H C).Drained ∧ (r.turn H C).panics = r.panics := by
  unfold Receiver.turn
  split
  · exact ⟨h, rfl⟩
  · next op inbound queued =>
    have interp := h.inbound op (by simp [queued])
    obtain ⟨timestamp, hx⟩ := ZodiaExtensions.exists_timestamp interp
    obtain ⟨event, materialized⟩ := Option.isSome_iff_exists.1 (materialize_isSome H C hx)
    rw [h.pipeline, ZodiaPipeline.turn_new, materialized]
    refine ⟨⟨rfl, fun op' hop' => h.inbound op' ?_⟩, rfl⟩
    rw [queued]
    exact List.mem_cons_of_mem op hop'

/-- What happens to a node and is no arrival panics nowhere. -/
theorem Receiver.step_node {e : NodeEvent Digest Args} (local_ : ∀ topic logId op,
    e ≠ .received topic logId op) :
    (r.step H C me dependencies (.node e)).panics = r.panics ∧
      (r.Drained → (r.step H C me dependencies (.node e)).Drained) := by
  cases e with
  | received topic logId op => exact absurd rfl (local_ topic logId op)
  | restart keyBundle => exact ⟨rfl, fun _ => ⟨rfl, by simp [Receiver.step]⟩⟩
  | _ => exact ⟨rfl, fun h => ⟨h.pipeline, h.inbound⟩⟩

theorem Receiver.Drained.step (h : r.Drained) (e : ReceiverEvent Digest Args) :
    (r.step H C me dependencies e).Drained := by
  rcases e with (e | ⟨topic, logId, op⟩ | _)
  · by_cases arrival : ∃ topic logId op, e = .received topic logId op
    · obtain ⟨topic, logId, op, rfl⟩ := arrival
      exact h.received
    · exact (Receiver.step_node fun _ _ _ same => arrival ⟨_, _, _, same⟩).2 h
  · exact h.received
  · exact h.turn.1

/-- An arrival that is not persisted panics nowhere. -/
theorem Receiver.panics_unstored :
    (r.received dependencies topic logId op false).panics = r.panics := by
  by_cases opened : (topic, logId) ∈ r.node.pumps
  · cases hx : op.header.extensions with
    | interp timestamp => rw [Receiver.received_interp opened hx]
    | circle args => rw [Receiver.received_unstored hx]
  · rw [Receiver.received_closed opened]

/-- A step panics exactly if it is the arrival of a circle operation that names an
interpretation operation of the store. -/
theorem Receiver.Drained.panics_step (h : r.Drained) (before : r.panics = [])
    (e : ReceiverEvent Digest Args) :
    (r.step H C me dependencies e).panics = [] ↔ NamesNoInterp dependencies r e := by
  rcases e with (e | ⟨topic, logId, op⟩ | _)
  · by_cases arrival : ∃ topic logId op, e = .received topic logId op
    · obtain ⟨topic, logId, op, rfl⟩ := arrival
      exact Receiver.panics_received_eq_nil before
    · have other : ∀ topic logId op, e ≠ .received topic logId op :=
        fun _ _ _ same => arrival ⟨_, _, _, same⟩
      refine iff_of_true ((Receiver.step_node other).1.trans before) ?_
      cases e with
      | received topic logId op => exact absurd rfl (other topic logId op)
      | _ => trivial
  · exact iff_of_true (Receiver.panics_unstored.trans before) trivial
  · exact iff_of_true (h.turn.2.trans before) trivial

/-- Whatever panics is a look-up of the manager. -/
theorem Receiver.Drained.mem_panics_step (h : r.Drained) {e : ReceiverEvent Digest Args}
    {panic : Panic} (hp : panic ∈ (r.step H C me dependencies e).panics) :
    panic ∈ r.panics ∨ panic = .extensionsUnreachable := by
  rcases e with (e | ⟨topic, logId, op⟩ | _)
  · by_cases arrival : ∃ topic logId op, e = .received topic logId op
    · obtain ⟨topic, logId, op, rfl⟩ := arrival
      exact Receiver.panics_received hp
    · rw [(Receiver.step_node fun _ _ _ same => arrival ⟨_, _, _, same⟩).1] at hp
      exact .inl hp
  · exact Receiver.panics_received hp
  · rw [Receiver.step, h.turn.2] at hp
    exact .inl hp

end Steps

/-! ## Runs -/

section Runs

variable [DecidableEq Digest] (H : Hashes Digest Args) (C : Codec Digest) (me : Bytes32)
  (dependencies : Args → List Digest) (node : Node Digest Args)

omit [DecidableEq Digest] in
theorem Receiver.drained_start : (Receiver.start node).Drained := ⟨rfl, by simp [Receiver.start]⟩

/-- The timestamp is there and an operation is of the kind of its wrapper, whatever arrives:
only the projection of a fetched operation may panic. -/
theorem panics_are_look_ups (es : List (ReceiverEvent Digest Args)) :
    ∀ panic ∈ (exec (Receiver.step H C me dependencies) (Receiver.start node) es).panics,
      panic = .extensionsUnreachable := by
  refine (exec_keeps (fun r : Receiver Digest Args => r.Drained ∧
    ∀ panic ∈ r.panics, panic = .extensionsUnreachable) ?_ ?_ es).2
  · rintro r e ⟨drained, look_ups⟩
    refine ⟨drained.step e, fun panic hp => ?_⟩
    exact (drained.mem_panics_step hp).elim (look_ups panic) id
  · exact ⟨Receiver.drained_start node, by simp [Receiver.start]⟩

/-- A run panics nowhere exactly if no circle operation that is received on an open topic and
persisted depends on an interpretation operation of the store. -/
theorem never_panics_iff (es : List (ReceiverEvent Digest Args)) :
    Always (Receiver.step H C me dependencies) (fun r => r.panics = []) (.start node) es ↔
      Along (Receiver.step H C me dependencies) (NamesNoInterp dependencies) (.start node) es := by
  have keep : ∀ r : Receiver Digest Args, ∀ e ∈ es, r.Drained →
      (r.step H C me dependencies e).Drained := fun r e _ drained => drained.step e
  rw [always_iff_along keep (fun r e _ drained before => drained.panics_step before e)
    (Receiver.drained_start node)]
  exact and_iff_right rfl

end Runs

/-! ### A dependency of the wrong kind -/

section WrongKind

private def kindHashes : Hashes Bytes (List Bytes) where
  hash := id
  low64 _ := 0
  header h := h.verifyingKey.toList ++ [if h.extensions.isCircle then 1 else 0]

private def noCodec : Codec Bytes := ⟨fun _ => .error "no variant", fun _ => .error "no variant"⟩

/-- An operation with its own hash and without a body. -/
private def bare (author : Bytes32) (extensions : ZodiaExtensions (List Bytes)) :
    Operation Bytes (List Bytes) :=
  let header : Header Bytes (List Bytes) := ⟨author, 0, none, 0, none, extensions⟩
  ⟨kindHashes.header header, header, none⟩

private def note : Operation Bytes (List Bytes) := bare (Vector.replicate 32 2) (.interp 5)

/-- It names the note, which every subscriber of the global topic has. -/
private def dependent : Operation Bytes (List Bytes) :=
  bare (Vector.replicate 32 3) (.circle [note.hash])

/-- Two operations, one on each of the topics that a start opens. -/
theorem dependency_panics :
    ¬ Always (Receiver.step kindHashes noCodec (Vector.replicate 32 1) id) (fun r => r.panics = [])
      (.start (Node.spawn kindHashes (Vector.replicate 32 1) LogStore.empty []))
      [.node (.received (globalTopic kindHashes) interpLogId note),
       .node (.received (circleDirectoryTopic kindHashes) circleLogId dependent)] := by
  intro always
  exact absurd always.last (by decide)

end WrongKind

end Zodia.Pipeline
