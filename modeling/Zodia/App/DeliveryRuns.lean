import Zodia.App.Delivery
import Zodia.App.FeedItems
import Zodia.Store.ArrivalOrder

/-!
# Runs from store to store

A run of arrivals, moves of the stages, subscriptions and restarts in any order. Once nothing
is on its way, every operation it persisted has been applied exactly if no step dropped one.

## Main definitions

* `deliver`, `Possible` — the state after a run, and which runs there are.
* `Delivered` — every operation persisted since the start was applied.
* `syncInterpretations` — what the handler does to the interpretations table.
-/

namespace Zodia.App

open Lib Sync Ops Pipeline

variable {Digest Args App : Type}

section Runs

variable [DecidableEq Digest] {H : Hashes Digest Args} {C : Codec Digest}
  {handle : App → StateEvent Digest → ℕ → App} {log : LogStore Digest Args} {app : App}
  {es : List (DeliveryEvent Digest Args)}

/-- The state after a run from a first start with the given stores. -/
abbrev deliver (H : Hashes Digest Args) (C : Codec Digest)
    (handle : App → StateEvent Digest → ℕ → App) (log : LogStore Digest Args) (app : App)
    (es : List (DeliveryEvent Digest Args)) : Delivery Digest Args App :=
  exec (Delivery.step H C handle) (.start log app []) es

/-- Every arrival of the run is one that can happen. -/
abbrev Possible (H : Hashes Digest Args) (C : Codec Digest)
    (handle : App → StateEvent Digest → ℕ → App) (log : LogStore Digest Args) (app : App)
    (es : List (DeliveryEvent Digest Args)) : Prop :=
  Along (Delivery.step H C handle) Delivery.Enabled (.start log app []) es

/-- Nothing is on its way. -/
structure Delivery.Quiet (nd : Delivery Digest Args App) : Prop where
  waiting : nd.waiting = []
  inbound : nd.inbound = []
  events : nd.events = []
  messages : nd.messages = []

/-- The handler was given the event of every interpretation operation that was persisted
since the store was `log`. -/
def Delivered (H : Hashes Digest Args) (C : Codec Digest) (log : LogStore Digest Args)
    (nd : Delivery Digest Args App) : Prop :=
  ∀ x ∈ nd.log.operations, x.isCircle = false → x ∉ log.operations →
    ∃ event now, (⟨some x.op, event⟩, now) ∈ nd.applied ∧ materialize H C x.op = some event

omit [DecidableEq Digest] in
theorem mem_persisted {op : Operation Digest Args} :
    op ∈ persisted log ↔ ∃ x ∈ log.operations, x.isCircle = false ∧ x.op = op := by
  simp only [persisted, Multiset.mem_coe, List.mem_filter, List.mem_map, Table.mem_rows]
  constructor
  · rintro ⟨⟨x, hx, rfl⟩, interp⟩
    exact ⟨x, hx, by simpa [LogEntry.isCircle] using interp, rfl⟩
  · rintro ⟨x, hx, interp, rfl⟩
    exact ⟨⟨x, hx, rfl⟩, by simpa [LogEntry.isCircle] using interp⟩

omit [DecidableEq Digest] in
theorem nodup_persisted (log : LogStore Digest Args) : (persisted log).Nodup := by
  have ops : (log.operations.rows.map LogEntry.op).Nodup :=
    List.Nodup.of_map Operation.hash (by simpa [Function.comp_def] using log.operations.nodup)
  exact Multiset.coe_nodup.2 (ops.filter _)

omit [DecidableEq Digest] in
theorem Delivery.Quiet.held {nd : Delivery Digest Args App} (quiet : nd.Quiet) :
    nd.held = .ofList nd.appliedOps := by
  simp [held_eq, quiet.waiting, quiet.inbound, quiet.events, quiet.messages]

/-- The operations that the steps of a run dropped. -/
abbrev lostIn (H : Hashes Digest Args) (C : Codec Digest)
    (handle : App → StateEvent Digest → ℕ → App) (log : LogStore Digest Args) (app : App)
    (es : List (DeliveryEvent Digest Args)) : Multiset (Operation Digest Args) :=
  tally (Delivery.step H C handle) (fun nd e => .ofList (nd.lost e)) (.start log app []) es

theorem lostIn_eq_zero_iff : lostIn H C handle log app es = 0 ↔
    Along (Delivery.step H C handle) Delivery.Spares (.start log app []) es := by
  rw [lostIn, tally_eq_zero_iff]
  simp only [Multiset.coe_eq_zero, lost_eq_nil_iff]

/-- What a run persists is what it applied, what is on the way and what it lost. -/
theorem deliver_balance (possible : Possible H C handle log app es) :
    persisted (deliver H C handle log app es).log = persisted log +
      ((deliver H C handle log app es).held + lostIn H C handle log app es) := by
  have balance := exec_balance Delivery.Sound (fun nd => persisted nd.log) Delivery.held
    (fun nd e sound _ => sound.step e) (fun nd e sound enabled => step_balance sound e enabled)
    (Delivery.sound_start log app []) possible
  simpa using balance

theorem mem_log_deliver {x : LogEntry Digest Args} (h : x ∈ log.operations) :
    x ∈ (deliver H C handle log app es).log.operations :=
  exec_keeps (fun nd : Delivery Digest Args App => x ∈ nd.log.operations)
    (fun _ e hx => mem_log_step hx e) h es

/-- An operation that a run lost was persisted by it, and is neither applied nor on its way. -/
theorem lost_missed (possible : Possible H C handle log app es) {op : Operation Digest Args}
    (lost : op ∈ lostIn H C handle log app es) :
    ∃ x ∈ (deliver H C handle log app es).log.operations, x.isCircle = false ∧
      x ∉ log.operations ∧ x.op ∉ (deliver H C handle log app es).held := by
  have balance := deliver_balance possible
  -- every operation is stored once, so the parts of the balance have none in common
  have nodup := nodup_persisted (deliver H C handle log app es).log
  rw [balance] at nodup
  obtain ⟨-, rest, apart⟩ := Multiset.nodup_add.1 nodup
  have hop : op ∈ persisted (deliver H C handle log app es).log := by
    rw [balance]
    exact Multiset.mem_add.2 (.inr (Multiset.mem_add.2 (.inr lost)))
  obtain ⟨x, hx, interp, rfl⟩ := mem_persisted.1 hop
  refine ⟨x, hx, interp, fun old => ?_, fun held => ?_⟩
  · exact Multiset.disjoint_left.1 apart (mem_persisted.2 ⟨x, old, interp, rfl⟩)
      (Multiset.mem_add.2 (.inr lost))
  · exact Multiset.disjoint_left.1 (Multiset.nodup_add.1 rest).2.2 held lost

/-- The application store is what the handler made of the messages it was given, and each
message of an operation carries its event. -/
structure Delivery.Faithful (H : Hashes Digest Args) (C : Codec Digest)
    (handle : App → StateEvent Digest → ℕ → App) (app : App) (nd : Delivery Digest Args App) :
    Prop where
  sound : nd.Sound
  app_eq : nd.app = nd.applied.foldl (fun a m => handle a m.1.event m.2) app
  named : ∀ m ∈ nd.posted, m.Named H C

theorem faithful_deliver : (deliver H C handle log app es).Faithful H C handle app := by
  refine exec_keeps (Delivery.Faithful H C handle app) ?_ ?_ es
  · intro nd e h
    refine ⟨h.sound.step e, ?_, named_step h.sound h.named e⟩
    rcases step_applied (H := H) (C := C) h.sound e with ⟨app, applied⟩ | ⟨m, now, app, applied⟩
    · rw [app, applied, h.app_eq]
    · rw [app, applied, List.foldl_append, ← h.app_eq]
      rfl
  · exact ⟨Delivery.sound_start log app [], rfl, fun m hm => absurd hm List.not_mem_nil⟩

/-- Once nothing is on its way, every operation that was persisted has been applied exactly if
no step of the run dropped one: no restart found an operation between the stores, and no
operation was broadcast without a receiver or pushed out of a full one. -/
theorem delivered_iff (possible : Possible H C handle log app es)
    (quiet : (deliver H C handle log app es).Quiet) :
    Delivered H C log (deliver H C handle log app es) ↔
      Along (Delivery.step H C handle) Delivery.Spares (.start log app []) es := by
  rw [← lostIn_eq_zero_iff, Multiset.eq_zero_iff_forall_notMem]
  constructor
  · intro delivered op lost
    obtain ⟨x, hx, interp, new, missed⟩ := lost_missed possible lost
    obtain ⟨event, now, applied, -⟩ := delivered x hx interp new
    exact missed (Multiset.mem_coe.2 (List.mem_append_right _
      (List.mem_filterMap.2 ⟨_, applied, rfl⟩)))
  · intro none x hx interp new
    have balance := deliver_balance possible
    rw [Multiset.eq_zero_of_forall_notMem none, add_zero, quiet.held] at balance
    have hop := balance ▸ mem_persisted.2 ⟨x, hx, interp, rfl⟩
    rcases Multiset.mem_add.1 hop with old | applied
    · -- an entry of the old store is still there, and the hash names one entry
      obtain ⟨y, hy, -, same⟩ := mem_persisted.1 old
      have hash : y.op.hash = x.op.hash := by rw [same]
      exact absurd (Table.eq_of_key (mem_log_deliver hy) hx hash ▸ hy) new
    · obtain ⟨⟨m, now⟩, hm, source⟩ := List.mem_filterMap.1 (Multiset.mem_coe.1 applied)
      have posted : m ∈ (deliver H C handle log app es).posted :=
        List.mem_append_right _ (List.mem_map.2 ⟨_, hm, rfl⟩)
      have named := faithful_deliver.named m posted
      obtain ⟨source', event⟩ := m
      obtain rfl : source' = some x.op := source
      exact ⟨event, now, hm, named x.op rfl⟩

end Runs

/-! ## The handler of the interpretations -/

section Handler

open Store

variable {Sig Secret VerifyingKey : Type} [DecidableEq Digest] (hash : Hash Digest)
  (S : SignatureScheme Secret VerifyingKey Digest Sig) (muted : Bytes32 → Bool)

/-- What the handler does to the interpretations table. -/
def syncInterpretations (t : Interpretations Digest Sig) (event : StateEvent Digest) (now : ℕ) :
    Interpretations Digest Sig :=
  match event with
  | .interpAuthored _ author interpKey body =>
    handleEvent hash S muted t (.authored author interpKey body, now)
  | .responseAdded _ author parentLogId body =>
    handleEvent hash S muted t (.response author parentLogId body, now)
  | .interpRevoked _ by_ targetLogId => handleEvent hash S muted t (.revoked by_ targetLogId, now)
  | _ => t

/-- The state event behind an item of the feed. -/
def SocialEvent.stateEvent : SocialEvent Digest → StateEvent Digest
  | .interpAuthored opId author interpKey body => .interpAuthored opId author interpKey body
  | .affirmAdded targetLogId voter => .affirmAdded targetLogId voter
  | .responseAdded opId parentLogId author body => .responseAdded opId author parentLogId body

/-- The handler that also builds the item does the same to the table. -/
theorem syncStateEvent_interpretations (asBytes : Digest → Bytes) (db : Db Digest Sig)
    (me : Bytes32) (event : SocialEvent Digest) (now : ℕ) :
    (syncStateEvent hash asBytes S db me muted event now).1.interpretations =
      syncInterpretations hash S muted db.interpretations event.stateEvent now := by
  cases event with
  | interpAuthored opId author interpKey body =>
    cases h : muted author <;> simp [syncStateEvent, isMutedSocialEvent, syncInterpretations,
      SocialEvent.stateEvent, handleEvent, SocialEvent.storeOp, Db.step, h]
  | affirmAdded targetLogId voter =>
    cases h : muted voter <;> simp [syncStateEvent, isMutedSocialEvent, syncInterpretations,
      SocialEvent.stateEvent, SocialEvent.storeOp, Db.step, h]
  | responseAdded opId parentLogId author body =>
    cases h : muted author <;> simp [syncStateEvent, isMutedSocialEvent, syncInterpretations,
      SocialEvent.stateEvent, handleEvent, SocialEvent.storeOp, Db.step, h]

end Handler

/-! ### A crash between the two stores -/

section Crash

open Store

/-- `{"Author": {"interp_key": "natal:sun_trine_moon", "body": "calm"}}` in CBOR. -/
private def calmBody : Bytes :=
  [161, 102, 65, 117, 116, 104, 111, 114, 162, 106, 105, 110, 116, 101, 114, 112, 95, 107, 101, 121,
    116, 110, 97, 116, 97, 108, 58, 115, 117, 110, 95, 116, 114, 105, 110, 101, 95, 109, 111, 111,
    110, 100, 98, 111, 100, 121, 100, 99, 97, 108, 109]

private def calmCodec : Codec Bytes where
  decodeInterp bytes :=
    if bytes = calmBody then .ok (.author "natal:sun_trine_moon" "calm") else .error "malformed"
  decodeDoc _ := .error "malformed"

private def calmHashes : Hashes Bytes Unit := ⟨id, fun _ => 0, fun h => h.verifyingKey.toList⟩

private def calmHeader : Header Bytes Unit :=
  ⟨Vector.replicate 32 1, calmBody.length, some calmBody, 0, none, .interp 7⟩

private def calm : Operation Bytes Unit := ⟨calmHashes.header calmHeader, calmHeader, some calmBody⟩

private def calmHandle := syncInterpretations id symbolicSignatures fun _ => false

theorem calm_free : (.empty : LogStore Bytes Unit).operations.Free calm.hash :=
  fun r hr => absurd hr (Table.not_mem_empty r)

/-- With a receiver and without a crash an operation gets through. -/
theorem delivered_iff_calm :
    Delivered calmHashes calmCodec .empty
      (deliver calmHashes calmCodec calmHandle .empty Table.empty
        [.subscribe, .received [0] 0 calm, .sent [0], .turn 8, .bridged, .handled 9]) := by
  refine (delivered_iff ?_ ⟨rfl, rfl, rfl, rfl⟩).2 ?_
  · exact ⟨trivial, ⟨calm_free, fun w hw => absurd hw List.not_mem_nil⟩, trivial, trivial, trivial,
      trivial, trivial⟩
  · exact ⟨trivial, trivial, trivial, ⟨rfl, fun m hm => absurd hm List.not_mem_nil⟩, trivial,
      trivial, trivial⟩

/-- Stored when the process crashes, the operation is not looked at again. -/
theorem calm_lost : ¬ ∀ es, Possible calmHashes calmCodec calmHandle .empty Table.empty es →
    (deliver calmHashes calmCodec calmHandle .empty Table.empty es).Quiet →
    Delivered calmHashes calmCodec .empty
      (deliver calmHashes calmCodec calmHandle .empty Table.empty es) := by
  intro every
  have delivered := every [.received [0] 0 calm, .restart, .subscribe]
    ⟨⟨calm_free, fun w hw => absurd hw List.not_mem_nil⟩, trivial, trivial, trivial⟩
    ⟨rfl, rfl, rfl, rfl⟩
  have stored : ⟨calm, 0⟩ ∈ (LogStore.empty.storeAndAssociate [0] calm.header.verifyingKey 0
      calm).operations := Table.mem_insertOrIgnore.2 (.inr ⟨rfl, calm_free⟩)
  obtain ⟨event, now, applied, -⟩ := delivered ⟨calm, 0⟩ stored rfl (Table.not_mem_empty _)
  exact absurd applied List.not_mem_nil

end Crash

end Zodia.App
