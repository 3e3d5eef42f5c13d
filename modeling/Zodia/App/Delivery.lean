import Zodia.Lib.LastN
import Zodia.Lib.Ledger
import Zodia.Pipeline.Stages
import Zodia.Sync.CircleDelivery

/-!
# From the operation store to the application store

The way of a received interpretation operation: the pump of its topic persists it, waits for
room in the bounded channel, the run loop feeds it to the pipeline and broadcasts the event,
the bridge of the app moves the event to the message queue of the interface, and the handler
applies it. Only the two stores survive a restart, and nothing reads the operation store on
a start. The broadcast keeps the newest 256 unread events and reaches no one before the app
has asked for its receiver. A peer does not send an operation again that the store has.

Taking a message out of a queue and putting what becomes of it into the next one is one step:
stopping between the two loses what stopping before them loses.

## Main definitions

* `Delivery`, `Delivery.step` — the two stores with the stages between them, and a run.
* `Delivery.lost`, `Delivery.Spares` — the operations that a step drops, and that it drops none.
* `Delivery.held` — the operations that were applied or are on the way.

## Main results

* `step_balance` — what a step persists is held from then on, less what it loses.
* `named_step`, `step_applied` — what the handler is given, and what becomes of it.
-/

namespace Zodia.App

open Lib Sync Ops Pipeline

variable {Digest Args App : Type}

/-- What a pump sends to the run loop. The lifecycle of a sync session goes on to channels of
its own. -/
inductive SyncEvent (Digest Args : Type) where
  | operationReceived (op : Operation Digest Args)
  | circleContentReceived (content : CircleContent Digest)
  | lifecycle

def SyncEvent.operation? : SyncEvent Digest Args → Option (Operation Digest Args)
  | .operationReceived op => some op
  | _ => none

/-- A state event on its way to the app, with the interpretation operation it came from. -/
structure Message (Digest Args : Type) where
  source : Option (Operation Digest Args)
  event : StateEvent Digest

/-- The capacity of the channel to the run loop, and that of the broadcast of state events. -/
def inboundCapacity : ℕ := 256
def eventsCapacity : ℕ := 256

/-- The operation store `log`, the application store `app`, and what is between them: the
operations that pumps hold until the channel has room, the channel, the pipeline, the unread
events of the app's receiver and the messages of the interface. `applied` records what the
handler was given, and when. -/
structure Delivery (Digest Args App : Type) where
  log : LogStore Digest Args
  app : App
  waiting : List (Digest × Operation Digest Args)
  inbound : List (SyncEvent Digest Args)
  pipeline : ZodiaPipeline Digest Args
  subscribed : Bool
  events : List (Message Digest Args)
  messages : List (Message Digest Args)
  applied : List (Message Digest Args × ℕ)

/-- The operations whose event the handler was given. -/
def Delivery.appliedOps (nd : Delivery Digest Args App) : List (Operation Digest Args) :=
  nd.applied.filterMap fun m => m.1.source

/-- A node that was started and attached, before the app asks for its receiver. -/
def Delivery.start (log : LogStore Digest Args) (app : App)
    (applied : List (Message Digest Args × ℕ)) : Delivery Digest Args App :=
  ⟨log, app, [], [], .new, false, [], [], applied⟩

@[simp] theorem Delivery.log_start (log : LogStore Digest Args) (app : App)
    (applied : List (Message Digest Args × ℕ)) : (start log app applied).log = log := rfl

/-- An arrival, a move of one of the stages, or a crash and the next start. -/
inductive DeliveryEvent (Digest Args : Type) where
  | received (topic : Digest) (logId : UInt64) (op : Operation Digest Args)
  | circleContent (content : CircleContent Digest)
  | lifecycle
  | sent (topic : Digest)
  | turn (now : ℕ)
  | subscribe
  | bridged
  | handled (now : ℕ)
  | restart

section Step

variable [DecidableEq Digest] (H : Hashes Digest Args) (C : Codec Digest)
  (handle : App → StateEvent Digest → ℕ → App) (nd : Delivery Digest Args App)

/-- The pump of a topic persists an operation; that of an interpretation then waits to send it. -/
def Delivery.received (topic : Digest) (logId : UInt64) (op : Operation Digest Args) :
    Delivery Digest Args App :=
  let author := op.header.verifyingKey
  match op.header.extensions with
  | .interp _ =>
    { nd with
      log := nd.log.storeAndAssociate topic author logId op
      waiting := (topic, op) :: nd.waiting }
  | .circle _ => { nd with log := nd.log.storeAndAssociate topic author circleLogId op }

/-- Put an event into the channel once it has room. -/
def Delivery.enqueue (event : SyncEvent Digest Args) : Delivery Digest Args App :=
  if nd.inbound.length < inboundCapacity then { nd with inbound := nd.inbound ++ [event] } else nd

/-- The pump of a topic sends the operation it holds. -/
def Delivery.sent (topic : Digest) : Delivery Digest Args App :=
  match nd.waiting.find? fun w => w.1 = topic with
  | some w =>
    if nd.inbound.length < inboundCapacity then
      { nd with
        waiting := nd.waiting.eraseP fun w => w.1 = topic
        inbound := nd.inbound ++ [.operationReceived w.2] }
    else nd
  | none => nd

/-- Broadcast an event: without a receiver it is gone, and a full one loses its oldest. -/
def Delivery.broadcast (m : Message Digest Args) : Delivery Digest Args App :=
  if nd.subscribed then { nd with events := lastN eventsCapacity (nd.events ++ [m]) } else nd

/-- The run loop takes the next event of the channel. -/
def Delivery.turn (now : ℕ) : Delivery Digest Args App :=
  match nd.inbound with
  | [] => nd
  | .operationReceived op :: rest =>
    match nd.pipeline.turn H C op with
    | some (event, pipeline) =>
      { nd with inbound := rest, pipeline := pipeline }.broadcast ⟨some op, event⟩
    -- the pipeline has no event to return, so the run loop waits for good
    | none => nd
  | .circleContentReceived content :: rest =>
    { nd with inbound := rest }.broadcast
      ⟨none, materializeCircleContent C content.opId content.author now content.plaintext⟩
  | .lifecycle :: rest => { nd with inbound := rest }

/-- The bridge moves the oldest unread event to the interface. -/
def Delivery.bridged : Delivery Digest Args App :=
  match nd.events with
  | m :: rest => { nd with events := rest, messages := nd.messages ++ [m] }
  | [] => nd

/-- The interface handles its next message. -/
def Delivery.handled (now : ℕ) : Delivery Digest Args App :=
  match nd.messages with
  | m :: rest =>
    { nd with
      app := handle nd.app m.event now
      messages := rest
      applied := nd.applied ++ [(m, now)] }
  | [] => nd

def Delivery.step : DeliveryEvent Digest Args → Delivery Digest Args App
  | .received topic logId op => nd.received topic logId op
  | .circleContent content => nd.enqueue (.circleContentReceived content)
  | .lifecycle => nd.enqueue .lifecycle
  | .sent topic => nd.sent topic
  | .turn now => nd.turn H C now
  | .subscribe => { nd with subscribed := true }
  | .bridged => nd.bridged
  | .handled now => nd.handled handle now
  | .restart => .start nd.log nd.app nd.applied

/-- An operation arrives that the store does not have, at a pump that is not waiting. -/
def Delivery.Enabled (nd : Delivery Digest Args App) : DeliveryEvent Digest Args → Prop
  | .received topic _ op => nd.log.operations.Free op.hash ∧ ∀ w ∈ nd.waiting, w.1 ≠ topic
  | _ => True

/-! ## What a step drops -/

/-- The operations between the two stores. -/
def Delivery.inFlight : List (Operation Digest Args) :=
  nd.waiting.map Prod.snd ++ nd.inbound.filterMap SyncEvent.operation? ++
    nd.events.filterMap Message.source ++ nd.messages.filterMap Message.source

/-- The unread events that have to make room for one more. -/
def Delivery.oldest : List (Message Digest Args) :=
  nd.events.take (nd.events.length + 1 - eventsCapacity)

/-- The operations that broadcasting an event of `source` drops. -/
def Delivery.lostBy (source : Option (Operation Digest Args)) : List (Operation Digest Args) :=
  if nd.subscribed then nd.oldest.filterMap Message.source else source.toList

/-- The operations that a step drops. -/
def Delivery.lost : DeliveryEvent Digest Args → List (Operation Digest Args)
  | .turn _ =>
    match nd.inbound with
    | .operationReceived op :: _ => nd.lostBy (some op)
    | .circleContentReceived _ :: _ => nd.lostBy none
    | _ => []
  | .restart => nd.inFlight
  | _ => []

/-- A restart finds no operation between the stores, and a broadcast of an operation reaches
the app and pushes out no other. -/
def Delivery.Spares : DeliveryEvent Digest Args → Prop
  | .turn _ =>
    match nd.inbound with
    | .operationReceived _ :: _ => nd.subscribed = true ∧ ∀ m ∈ nd.oldest, m.source = none
    | .circleContentReceived _ :: _ => nd.subscribed = true → ∀ m ∈ nd.oldest, m.source = none
    | _ => True
  | .restart => nd.inFlight = []
  | _ => True

omit [DecidableEq Digest] in
theorem lost_eq_nil_iff (e : DeliveryEvent Digest Args) : nd.lost e = [] ↔ nd.Spares e := by
  cases e with
  | turn now =>
    unfold Delivery.lost Delivery.Spares
    dsimp only
    split <;> cases h : nd.subscribed <;> simp [Delivery.lostBy, h]
  | restart => rfl
  | _ => simp [Delivery.lost, Delivery.Spares]

/-! ## The balance of a step -/

/-- The interpretation operations of the store. -/
def persisted (log : LogStore Digest Args) : Multiset (Operation Digest Args) :=
  (log.operations.rows.map LogEntry.op).filter fun op => !op.header.extensions.isCircle

/-- The operations that were applied or are on the way. -/
def Delivery.held : Multiset (Operation Digest Args) := nd.inFlight ++ nd.appliedOps

/-- The pipeline is drained, and what pumps pass on is an interpretation. -/
structure Delivery.Sound : Prop where
  drained : nd.pipeline = .new
  waiting : ∀ w ∈ nd.waiting, w.2.header.extensions.isCircle = false
  inbound : ∀ op, .operationReceived op ∈ nd.inbound → op.header.extensions.isCircle = false

/-- The messages on their way to the handler and those it was given. -/
def Delivery.posted : List (Message Digest Args) :=
  nd.events ++ nd.messages ++ nd.applied.map Prod.fst

/-- A message that comes from an operation carries its event. -/
def Message.Named (m : Message Digest Args) : Prop :=
  ∀ op, m.source = some op → materialize H C op = some m.event

/-- What lies behind the channel is the same. -/
structure Delivery.SameBack (nd' : Delivery Digest Args App) : Prop where
  app : nd'.app = nd.app
  events : nd'.events = nd.events
  messages : nd'.messages = nd.messages
  applied : nd'.applied = nd.applied

end Step

section Balance

variable {H : Hashes Digest Args} {C : Codec Digest} {handle : App → StateEvent Digest → ℕ → App}
  {nd : Delivery Digest Args App}

@[simp] theorem Delivery.log_enqueue (event : SyncEvent Digest Args) :
    (nd.enqueue event).log = nd.log := by
  unfold enqueue
  split <;> rfl

@[simp] theorem Delivery.log_broadcast (m : Message Digest Args) :
    (nd.broadcast m).log = nd.log := by
  unfold broadcast
  split <;> rfl

@[simp] theorem Delivery.log_turn (now : ℕ) : (nd.turn H C now).log = nd.log := by
  unfold turn
  split
  · rfl
  · split <;> simp
  · simp
  · rfl

@[simp] theorem Delivery.log_bridged : nd.bridged.log = nd.log := by
  unfold bridged
  split <;> rfl

@[simp] theorem Delivery.log_handled (now : ℕ) : (nd.handled handle now).log = nd.log := by
  unfold handled
  split <;> rfl

theorem oldest_append_lastN (nd : Delivery Digest Args App) (m : Message Digest Args) :
    nd.oldest ++ lastN eventsCapacity (nd.events ++ [m]) = nd.events ++ [m] := by
  have drop : nd.events.length + 1 - eventsCapacity ≤ nd.events.length := by
    unfold eventsCapacity
    omega
  rw [Delivery.oldest, lastN, List.length_append, List.length_singleton,
    ← List.take_append_of_le_length drop, List.take_append_drop]

theorem held_eq : nd.held =
    .ofList (nd.waiting.map Prod.snd) + .ofList (nd.inbound.filterMap SyncEvent.operation?) +
      .ofList (nd.events.filterMap Message.source) +
      .ofList (nd.messages.filterMap Message.source) + .ofList nd.appliedOps := by
  simp [Delivery.held, Delivery.inFlight, ← Multiset.coe_add, add_assoc]

@[simp] theorem held_start (log : LogStore Digest Args) (app : App)
    (applied : List (Message Digest Args × ℕ)) : (Delivery.start log app applied).held =
      .ofList (applied.filterMap fun m => m.1.source) := rfl

theorem held_events (events : List (Message Digest Args)) :
    { nd with events := events }.held =
      .ofList (events.filterMap Message.source) + { nd with events := [] }.held := by
  rw [held_eq, held_eq]
  simp only [List.filterMap_nil, Multiset.coe_nil]
  abel

/-- A broadcast event is held from then on, or it pushes out or is itself what is lost. -/
theorem broadcast_balance (nd : Delivery Digest Args App) (m : Message Digest Args) :
    (nd.broadcast m).held + .ofList (nd.lostBy m.source) =
      nd.held + .ofList m.source.toList := by
  cases subscribed : nd.subscribed with
  | false => simp [Delivery.broadcast, Delivery.lostBy, subscribed]
  | true =>
    have parts := congrArg (fun l => Multiset.ofList (l.filterMap Message.source))
      (oldest_append_lastN nd m)
    have one : [m].filterMap Message.source = m.source.toList := by
      cases h : m.source <;> simp [h]
    simp only [List.filterMap_append, ← Multiset.coe_add, one] at parts
    have lost : nd.lostBy m.source = nd.oldest.filterMap Message.source := by
      simp [Delivery.lostBy, subscribed]
    have moved : nd.broadcast m =
        { nd with events := lastN eventsCapacity (nd.events ++ [m]) } := by
      simp [Delivery.broadcast, subscribed]
    rw [moved, lost, held_events, add_right_comm, add_comm (Multiset.ofList _), parts,
      add_right_comm, ← held_events nd.events]

theorem held_enqueue (nd : Delivery Digest Args App) (event : SyncEvent Digest Args)
    (other : event.operation? = none) :
    (nd.enqueue event).held = nd.held := by
  unfold Delivery.enqueue
  split
  · simp [Delivery.held, Delivery.inFlight, Delivery.appliedOps, other]
  · rfl

theorem held_bridged : nd.bridged.held = nd.held := by
  unfold Delivery.bridged
  split
  · next m rest events =>
    rw [held_eq, held_eq, events]
    simp only [List.filterMap_eq_flatMap_toList, List.flatMap_append, List.flatMap_cons,
      List.flatMap_nil, List.append_nil, ← Multiset.coe_add]
    abel
  · rfl

theorem held_handled (now : ℕ) : (nd.handled handle now).held = nd.held := by
  unfold Delivery.handled
  split
  · next m rest messages =>
    rw [held_eq, held_eq, messages]
    simp only [Delivery.appliedOps, List.filterMap_eq_flatMap_toList, List.flatMap_append,
      List.flatMap_cons, List.flatMap_nil, List.append_nil, ← Multiset.coe_add]
    abel
  · rfl

/-- The run loop waits, puts an event aside or broadcasts the one of the operation it takes. -/
theorem turn_cases (sound : nd.Sound) (now : ℕ) :
    nd.inbound = [] ∧ nd.turn H C now = nd ∨
      ∃ event rest, nd.inbound = event :: rest ∧
        (event = .lifecycle ∧ nd.turn H C now = { nd with inbound := rest } ∨
          event ≠ .lifecycle ∧ ∃ m, m.source = event.operation? ∧ m.Named H C ∧
            nd.turn H C now = { nd with inbound := rest }.broadcast m) := by
  cases inbound : nd.inbound with
  | nil => exact .inl ⟨rfl, by simp [Delivery.turn, inbound]⟩
  | cons event rest =>
    refine .inr ⟨event, rest, rfl, ?_⟩
    cases event with
    | lifecycle => exact .inl ⟨rfl, by simp [Delivery.turn, inbound]⟩
    | circleContentReceived content =>
      refine .inr ⟨by simp, ⟨none, materializeCircleContent C content.opId content.author now
        content.plaintext⟩, rfl, fun op source => absurd source (by simp), ?_⟩
      simp only [Delivery.turn, inbound]
    | operationReceived op =>
      have plain := sound.inbound op (by simp [inbound])
      obtain ⟨timestamp, interp⟩ := ZodiaExtensions.exists_timestamp plain
      obtain ⟨event, hevent⟩ := Option.isSome_iff_exists.1 (materialize_isSome H C interp)
      refine .inr ⟨by simp, ⟨some op, event⟩, rfl, fun op' source => ?_, ?_⟩
      · obtain rfl := Option.some.inj source
        exact hevent
      · have turn : nd.pipeline.turn H C op = some (event, nd.pipeline) := by
          rw [sound.drained, ZodiaPipeline.turn_new, hevent, Option.map_some]
        simp only [Delivery.turn, inbound, turn]

theorem lost_turn {event : SyncEvent Digest Args} {rest : List (SyncEvent Digest Args)}
    (inbound : nd.inbound = event :: rest) (broadcasts : event ≠ .lifecycle) (now : ℕ) :
    nd.lost (.turn now) = nd.lostBy event.operation? := by
  cases event with
  | lifecycle => exact absurd rfl broadcasts
  | _ => simp [Delivery.lost, inbound, SyncEvent.operation?]

/-- What the head of the channel carries leaves the channel. -/
theorem held_tail {event : SyncEvent Digest Args} {rest : List (SyncEvent Digest Args)}
    (inbound : nd.inbound = event :: rest) :
    nd.held = { nd with inbound := rest }.held + .ofList event.operation?.toList := by
  rw [held_eq, held_eq, inbound]
  simp only [List.filterMap_eq_flatMap_toList, List.flatMap_cons, ← Multiset.coe_add]
  abel

theorem turn_balance (sound : nd.Sound) (now : ℕ) :
    (nd.turn H C now).held + .ofList (nd.lost (.turn now)) = nd.held := by
  rcases turn_cases (H := H) (C := C) sound now with
    ⟨inbound, same⟩ | ⟨event, rest, inbound, ⟨rfl, same⟩ | ⟨broadcasts, m, source, -, same⟩⟩
  · simp [same, Delivery.lost, inbound]
  · simp [same, Delivery.lost, inbound, held_tail inbound, SyncEvent.operation?]
  · rw [same, lost_turn inbound broadcasts, held_tail inbound, ← source]
    exact broadcast_balance { nd with inbound := rest } m

variable [DecidableEq Digest]

@[simp] theorem Delivery.log_sent (topic : Digest) : (nd.sent topic).log = nd.log := by
  unfold sent
  split
  · split <;> rfl
  · rfl

/-- The operation store is that of the node. -/
theorem log_received (node : Node Digest Args) (same : nd.log = node.store) (topic : Digest)
    (logId : UInt64) (op : Operation Digest Args) :
    (nd.received topic logId op).log = (node.operationReceived topic logId op).store := by
  unfold Delivery.received Node.operationReceived
  cases op.header.extensions <;> simp [same]

/-- An operation that is new to the store is in it from then on. -/
theorem persisted_storeAndAssociate {log : LogStore Digest Args} {op : Operation Digest Args}
    (free : log.operations.Free op.hash) (topic : Digest) (author : Bytes32) (logId : UInt64) :
    persisted (log.storeAndAssociate topic author logId op) =
      persisted log + if op.header.extensions.isCircle then 0 else {op} := by
  have rows : (log.storeAndAssociate topic author logId op).operations.rows =
      log.operations.rows ++ [⟨op, logId⟩] := Table.rows_insertOrIgnore free
  unfold persisted
  rw [rows, List.map_append, List.filter_append, ← Multiset.coe_add]
  cases h : op.header.extensions.isCircle <;> simp [h]

theorem received_balance {topic : Digest} {logId : UInt64} {op : Operation Digest Args}
    (free : nd.log.operations.Free op.hash) :
    persisted (nd.received topic logId op).log + nd.held =
      persisted nd.log + (nd.received topic logId op).held := by
  unfold Delivery.received
  cases h : op.header.extensions with
  | interp timestamp =>
    dsimp only
    rw [persisted_storeAndAssociate free, h, held_eq, held_eq, List.map_cons,
      ← Multiset.cons_coe, ← Multiset.singleton_add]
    simp only [ZodiaExtensions.isCircle, Bool.false_eq_true, if_false]
    abel
  | circle args =>
    dsimp only
    rw [persisted_storeAndAssociate free, h]
    simp only [ZodiaExtensions.isCircle, if_true, add_zero]
    rfl

omit [DecidableEq Digest] in
/-- What is found and what is left when it is removed. -/
theorem perm_cons_eraseP {α : Type} {p : α → Bool} {l : List α} {a : α}
    (found : l.find? p = some a) : l.Perm (a :: l.eraseP p) := by
  induction l with
  | nil => cases found
  | cons b l ih =>
    cases h : p b with
    | true =>
      rw [List.find?_cons_of_pos h] at found
      rw [Option.some.inj found, List.eraseP_cons_of_pos (Option.some.inj found ▸ h)]
    | false =>
      rw [List.find?_cons_of_neg (by simp [h])] at found
      rw [List.eraseP_cons_of_neg (by simp [h])]
      exact ((ih found).cons b).trans (.swap a b _)

theorem held_sent (topic : Digest) : (nd.sent topic).held = nd.held := by
  unfold Delivery.sent
  split
  · next w found =>
    split
    · have perm := perm_cons_eraseP found
      have waiting := Multiset.coe_eq_coe.2 (perm.map Prod.snd)
      rw [List.map_cons, ← Multiset.cons_coe, ← Multiset.singleton_add] at waiting
      rw [held_eq, held_eq, waiting, List.filterMap_append, ← Multiset.coe_add]
      simp only [List.filterMap_cons, SyncEvent.operation?, List.filterMap_nil,
        Multiset.coe_singleton]
      abel
    · rfl
  · rfl

/-- What a step persists is held from then on, less what it loses. -/
theorem step_balance (sound : nd.Sound) (e : DeliveryEvent Digest Args) (enabled : nd.Enabled e) :
    persisted (nd.step H C handle e).log + nd.held =
      persisted nd.log + ((nd.step H C handle e).held + .ofList (nd.lost e)) := by
  cases e with
  | received topic logId op =>
    simpa [Delivery.step, Delivery.lost] using received_balance enabled.1
  | circleContent content =>
    have held := held_enqueue nd (.circleContentReceived content) rfl
    simp [Delivery.step, Delivery.lost, held]
  | lifecycle =>
    have held := held_enqueue nd .lifecycle rfl
    simp [Delivery.step, Delivery.lost, held]
  | sent topic => simp [Delivery.step, Delivery.lost, held_sent]
  | turn now =>
    have := turn_balance (H := H) (C := C) sound now
    simp [Delivery.step, this]
  | subscribe =>
    have held : (nd.step H C handle .subscribe).held = nd.held := rfl
    rw [held]
    simp [Delivery.step, Delivery.lost]
  | bridged => simp [Delivery.step, Delivery.lost, held_bridged]
  | handled now => simp [Delivery.step, Delivery.lost, held_handled]
  | restart =>
    have held : nd.held = .ofList nd.inFlight + .ofList nd.appliedOps := Multiset.coe_add ..
    simp [Delivery.step, Delivery.lost, Delivery.appliedOps, held, add_comm]

/-! ## Invariants -/

omit [DecidableEq Digest] in
theorem Delivery.sound_start (log : LogStore Digest Args) (app : App)
    (applied : List (Message Digest Args × ℕ)) : (start log app applied).Sound :=
  ⟨rfl, fun _ h => absurd h List.not_mem_nil, fun _ h => absurd h List.not_mem_nil⟩

omit [DecidableEq Digest] in
theorem Delivery.Sound.broadcast (sound : nd.Sound) (m : Message Digest Args) :
    (nd.broadcast m).Sound := by
  unfold Delivery.broadcast
  split
  · exact ⟨sound.drained, sound.waiting, sound.inbound⟩
  · exact sound

omit [DecidableEq Digest] in
theorem Delivery.Sound.enqueue (sound : nd.Sound) (event : SyncEvent Digest Args)
    (interp : ∀ op, event = .operationReceived op → op.header.extensions.isCircle = false) :
    (nd.enqueue event).Sound := by
  unfold Delivery.enqueue
  split
  · refine ⟨sound.drained, sound.waiting, fun op hop => ?_⟩
    rcases List.mem_append.1 hop with old | new
    · exact sound.inbound op old
    · exact interp op (List.mem_singleton.1 new).symm
  · exact sound

theorem Delivery.Sound.received (sound : nd.Sound) (topic : Digest) (logId : UInt64)
    (op : Operation Digest Args) : (nd.received topic logId op).Sound := by
  unfold Delivery.received
  cases h : op.header.extensions with
  | circle args => exact ⟨sound.drained, sound.waiting, sound.inbound⟩
  | interp timestamp =>
    refine ⟨sound.drained, fun w hw => ?_, sound.inbound⟩
    rcases List.mem_cons.1 hw with rfl | old
    · simp [h, ZodiaExtensions.isCircle]
    · exact sound.waiting w old

theorem Delivery.Sound.sent (sound : nd.Sound) (topic : Digest) : (nd.sent topic).Sound := by
  unfold Delivery.sent
  split
  · next w found =>
    split
    · refine ⟨sound.drained, fun w hw => sound.waiting w (List.mem_of_mem_eraseP hw), ?_⟩
      intro op hop
      rcases List.mem_append.1 hop with old | new
      · exact sound.inbound op old
      · obtain rfl : op = w.2 := by simpa using new
        exact sound.waiting w (List.mem_of_find?_eq_some found)
    · exact sound
  · exact sound

omit [DecidableEq Digest] in
theorem Delivery.Sound.tail (sound : nd.Sound) {event : SyncEvent Digest Args}
    {rest : List (SyncEvent Digest Args)} (inbound : nd.inbound = event :: rest) :
    { nd with inbound := rest }.Sound where
  drained := sound.drained
  waiting := sound.waiting
  inbound op hop := sound.inbound op (inbound ▸ List.mem_cons_of_mem event hop)

omit [DecidableEq Digest] in
theorem Delivery.Sound.turn (sound : nd.Sound) (now : ℕ) : (nd.turn H C now).Sound := by
  rcases turn_cases (H := H) (C := C) sound now with
    ⟨-, same⟩ | ⟨event, rest, inbound, ⟨-, same⟩ | ⟨-, m, -, -, same⟩⟩
  · rwa [same]
  · exact same ▸ sound.tail inbound
  · exact same ▸ (sound.tail inbound).broadcast m

theorem Delivery.Sound.step (sound : nd.Sound) (e : DeliveryEvent Digest Args) :
    (nd.step H C handle e).Sound := by
  cases e with
  | received topic logId op => exact sound.received topic logId op
  | circleContent content => exact sound.enqueue _ (by simp)
  | lifecycle => exact sound.enqueue _ (by simp)
  | sent topic => exact sound.sent topic
  | turn now => exact sound.turn now
  | subscribe => exact ⟨sound.drained, sound.waiting, sound.inbound⟩
  | bridged =>
    unfold Delivery.step Delivery.bridged
    dsimp only
    split <;> exact ⟨sound.drained, sound.waiting, sound.inbound⟩
  | handled now =>
    unfold Delivery.step Delivery.handled
    dsimp only
    split <;> exact ⟨sound.drained, sound.waiting, sound.inbound⟩
  | restart => exact Delivery.sound_start _ _ _

/-- The operation store only grows. -/
theorem mem_log_step {x : LogEntry Digest Args} (h : x ∈ nd.log.operations)
    (e : DeliveryEvent Digest Args) : x ∈ (nd.step H C handle e).log.operations := by
  cases e with
  | received topic logId op =>
    change x ∈ (nd.received topic logId op).log.operations
    unfold Delivery.received
    dsimp only
    split <;> exact Table.mem_insertOrIgnore.2 (.inl h)
  | _ => simpa [Delivery.step] using h

/-! ## What the handler is given -/

omit [DecidableEq Digest] in
theorem Delivery.SameBack.posted {nd' : Delivery Digest Args App} (same : nd.SameBack nd') :
    nd'.posted = nd.posted := by
  rw [Delivery.posted, Delivery.posted, same.events, same.messages, same.applied]

omit [DecidableEq Digest] in
theorem sameBack_enqueue (event : SyncEvent Digest Args) : nd.SameBack (nd.enqueue event) := by
  unfold Delivery.enqueue
  split <;> exact ⟨rfl, rfl, rfl, rfl⟩

theorem sameBack_received (topic : Digest) (logId : UInt64) (op : Operation Digest Args) :
    nd.SameBack (nd.received topic logId op) := by
  unfold Delivery.received
  dsimp only
  split <;> exact ⟨rfl, rfl, rfl, rfl⟩

theorem sameBack_sent (topic : Digest) : nd.SameBack (nd.sent topic) := by
  unfold Delivery.sent
  split
  · split <;> exact ⟨rfl, rfl, rfl, rfl⟩
  · exact ⟨rfl, rfl, rfl, rfl⟩

omit [DecidableEq Digest] in
theorem broadcast_back (nd : Delivery Digest Args App) (m : Message Digest Args) :
    (nd.broadcast m).app = nd.app ∧ (nd.broadcast m).messages = nd.messages ∧
      (nd.broadcast m).applied = nd.applied := by
  unfold Delivery.broadcast
  split <;> exact ⟨rfl, rfl, rfl⟩

/-- A step gives the handler nothing, or the oldest message of the interface. -/
theorem step_applied (sound : nd.Sound) (e : DeliveryEvent Digest Args) :
    ((nd.step H C handle e).app = nd.app ∧ (nd.step H C handle e).applied = nd.applied) ∨
      ∃ m now, (nd.step H C handle e).app = handle nd.app m.event now ∧
        (nd.step H C handle e).applied = nd.applied ++ [(m, now)] := by
  have front : ∀ {nd' : Delivery Digest Args App}, nd.SameBack nd' →
      nd'.app = nd.app ∧ nd'.applied = nd.applied := fun same => ⟨same.app, same.applied⟩
  cases e with
  | received topic logId op => exact .inl (front (sameBack_received topic logId op))
  | circleContent content => exact .inl (front (sameBack_enqueue _))
  | lifecycle => exact .inl (front (sameBack_enqueue _))
  | sent topic => exact .inl (front (sameBack_sent topic))
  | turn now =>
    rcases turn_cases (H := H) (C := C) sound now with
      ⟨-, same⟩ | ⟨event, rest, -, ⟨-, same⟩ | ⟨-, m, -, -, same⟩⟩
    all_goals
      left
      change (nd.turn H C now).app = nd.app ∧ (nd.turn H C now).applied = nd.applied
      rw [same]
    · exact ⟨rfl, rfl⟩
    · exact ⟨rfl, rfl⟩
    · obtain ⟨app, -, applied⟩ := broadcast_back { nd with inbound := rest } m
      exact ⟨app, applied⟩
  | bridged =>
    unfold Delivery.step Delivery.bridged
    dsimp only
    split <;> exact .inl ⟨rfl, rfl⟩
  | handled now =>
    unfold Delivery.step Delivery.handled
    dsimp only
    split
    · exact .inr ⟨_, now, rfl, rfl⟩
    · exact .inl ⟨rfl, rfl⟩
  | _ => exact .inl ⟨rfl, rfl⟩

omit [DecidableEq Digest] in
theorem mem_posted_broadcast {m x : Message Digest Args} (h : x ∈ (nd.broadcast m).posted) :
    x ∈ nd.posted ∨ x = m := by
  have unread : x ∈ (nd.broadcast m).events → x ∈ nd.events ∨ x = m := by
    intro hx
    unfold Delivery.broadcast at hx
    split at hx
    · simpa using (lastN_suffix _).mem hx
    · exact .inl hx
  obtain ⟨-, messages, applied⟩ := broadcast_back nd m
  simp only [Delivery.posted, List.mem_append, messages, applied] at h ⊢
  tauto

/-- A step posts the event of the operation it takes from the channel, or one of no operation. -/
theorem named_step (sound : nd.Sound) (named : ∀ m ∈ nd.posted, m.Named H C)
    (e : DeliveryEvent Digest Args) : ∀ m ∈ (nd.step H C handle e).posted, m.Named H C := by
  intro x hx
  cases e with
  | received topic logId op => exact named x ((sameBack_received topic logId op).posted ▸ hx)
  | circleContent content => exact named x ((sameBack_enqueue _).posted ▸ hx)
  | lifecycle => exact named x ((sameBack_enqueue _).posted ▸ hx)
  | sent topic => exact named x ((sameBack_sent topic).posted ▸ hx)
  | turn now =>
    change x ∈ (nd.turn H C now).posted at hx
    rcases turn_cases (H := H) (C := C) sound now with
      ⟨-, same⟩ | ⟨event, rest, -, ⟨-, same⟩ | ⟨-, m, -, own, same⟩⟩
    · exact named x (same ▸ hx)
    · rw [same] at hx
      exact named x hx
    · rw [same] at hx
      rcases mem_posted_broadcast hx with old | rfl
      · exact named x old
      · exact own
  | subscribe => exact named x hx
  | bridged =>
    change x ∈ nd.bridged.posted at hx
    unfold Delivery.bridged at hx
    split at hx
    · next events =>
      refine named x ?_
      simp only [Delivery.posted, events, List.mem_append, List.mem_cons, List.not_mem_nil,
        or_false] at hx ⊢
      tauto
    · exact named x hx
  | handled now =>
    change x ∈ (nd.handled handle now).posted at hx
    unfold Delivery.handled at hx
    split at hx
    · next messages =>
      refine named x ?_
      simp only [Delivery.posted, messages, List.mem_append, List.mem_cons, List.map_append,
        List.map_cons, List.map_nil, List.not_mem_nil, or_false] at hx ⊢
      tauto
    · exact named x hx
  | restart => exact named x (List.mem_append_right _ hx)

end Balance

end Zodia.App
