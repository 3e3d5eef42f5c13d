import Zodia.App.DocState
import Zodia.App.Migration

/-!
# When the store fails

What a device does with its documents when calls of the store fail. An own edit is sent to the
others whether or not it was saved. A received edit is saved before its pushes are done, and a
rollback is one transaction. A start that cannot migrate the old texts only warns, so the next
one migrates them again, over whatever was edited in between.

## Main definitions

* `CollabEvent` — what can happen, and how far the store lets it go.
* `CollabDevice.step` — one such event.

## Main results

* `CollabDevice.device_exec` — without a failure it is `Device.step`.
-/

namespace Zodia.App

open Lib Doc Store

variable {Blob C Digest : Type}

/-- How far an own edit gets: its document could not be loaded, could not be saved, or was
saved. -/
inductive SaveOutcome where
  | notLoaded
  | notSaved
  | saved
  deriving DecidableEq

/-- What can happen on a device. -/
inductive CollabEvent (Blob Digest : Type) where
  /-- A start that finds the old texts `legacy`. Its migration may fail after some writes. -/
  | start (legacy : List LegacyKey) (stop : Option ℕ) (now : ℕ)
  | publishDocEdit (interpKey newBody : String) (aiGenerated : Bool) (header : Option OpHeader)
      (outcome : SaveOutcome) (now : ℕ)
  /-- `none` when the document could not be loaded or saved, else how many pushes were done. -/
  | docEdited (op : DocEdited Blob) (pushed : Option ℕ) (now : ℕ)
  /-- A veto that meets a failure is dropped, or honoured all the same: a ring that cannot be
  read counts as empty, and another block may give the authority. -/
  | docVetoProposed (op : DocVetoProposed Digest) (dropped : Bool) (now : ℕ)
  | proposeDocVeto (interpKey : String) (targetEditOpId : Digest) (header : Option OpHeader)
      (dropped : Bool) (now : ℕ)

/-- The event with a store that works. A restart finds the old texts where they were. -/
def DocEvent.unfailing (legacy : List LegacyKey) :
    DocEvent Blob Digest → CollabEvent Blob Digest
  | .publishDocEdit interpKey newBody aiGenerated header now =>
    .publishDocEdit interpKey newBody aiGenerated header .saved now
  | .docEdited op now => .docEdited op (some op.affectedBlocks.length) now
  | .docVetoProposed op now => .docVetoProposed op false now
  | .proposeDocVeto interpKey target header now => .proposeDocVeto interpKey target header false now
  | .restart => .start legacy none 0

/-- What the migration can write on a device, and the updates that were sent out. -/
structure CollabDevice (Blob Digest : Type) where
  store : CollabStore Blob Digest
  published : List (DocEdited Blob)

namespace CollabDevice

/-- A device before its first start. -/
def fresh : CollabDevice Blob Digest := ⟨⟨DocStore.empty, Table.empty, false⟩, []⟩

/-- The documents of the device, and the updates it has sent out. -/
def device (d : CollabDevice Blob Digest) : Device Blob Digest := ⟨d.store.docs, d.published⟩

def setDocs (d : CollabDevice Blob Digest) (docs : DocStore Blob Digest) :
    CollabDevice Blob Digest :=
  { d with store := { d.store with docs := docs } }

section Model

variable [DecidableEq C] [DecidableEq Digest] (L : Loro Blob C Digest) (ids : OpIds Blob Digest)
  (me : Bytes32) (d : CollabDevice Blob Digest)

/-- The updates that are out once a local edit is sent. Without a client, or when it fails, nothing
is. -/
def sends (interpKey newBody : String) (aiGenerated : Bool) :
    Option OpHeader → List (DocEdited Blob)
  | some header => d.device.publishes L me interpKey newBody aiGenerated header :: d.published
  | none => d.published

def step : CollabEvent Blob Digest → CollabDevice Blob Digest
  | .start legacy stop now => { d with store := migrate L ids me legacy stop now d.store }
  | .publishDocEdit interpKey newBody aiGenerated header outcome now =>
    match outcome with
    | .notLoaded => d
    -- the failure is ignored
    | .notSaved => { d with published := d.sends L me interpKey newBody aiGenerated header }
    | .saved =>
      { d.setDocs (publishDocEdit L ids d.store.docs me interpKey newBody now) with
        published := d.sends L me interpKey newBody aiGenerated header }
  | .docEdited op pushed now =>
    match pushed with
    | none => d
    | some pushed =>
      d.setDocs (applyDocEditCut L d.store.docs me pushed op.interpKey op.crdtUpdate
        op.header.verifyingKey (ids.header op.header) op.header.timestamp op.affectedBlocks
        op.aiGenerated now)
  | .docVetoProposed op dropped now =>
    if dropped then d
    else
      d.setDocs ((applyDocVeto L d.store.docs op.targetEditOpId op.header.verifyingKey
        op.interpKey now).getD d.store.docs)
  | .proposeDocVeto interpKey target _ dropped now =>
    if dropped then d
    else d.setDocs ((applyDocVeto L d.store.docs target me interpKey now).getD d.store.docs)

end Model

/-! ## The writes of a start -/

section Start

variable [DecidableEq C] (L : Loro Blob C Digest) (ids : OpIds Blob Digest) (me : Bytes32)

/-- What a start writes: nothing once a migration has ended. -/
def startWrites (legacy : List LegacyKey) (stop : Option ℕ) (s : CollabStore Blob Digest) :
    List (DocWrite Blob Digest) :=
  if s.migrationDone then []
  else match stop with
    | none => writes L ids me legacy
    | some k => (writes L ids me legacy).take k

variable {L ids me}

theorem mem_writes_of_mem_startWrites {legacy : List LegacyKey} {stop : Option ℕ}
    {s : CollabStore Blob Digest} {w : DocWrite Blob Digest}
    (h : w ∈ startWrites L ids me legacy stop s) : w ∈ writes L ids me legacy := by
  unfold startWrites at h
  split_ifs at h
  · exact absurd h List.not_mem_nil
  · cases stop with
    | none => exact h
    | some k => exact List.mem_of_mem_take h

theorem docs_migrate (legacy : List LegacyKey) (stop : Option ℕ) (now : ℕ)
    (s : CollabStore Blob Digest) :
    (migrate L ids me legacy stop now s).docs =
      exec (DocWrite.apply now) s.docs (startWrites L ids me legacy stop s) := by
  unfold migrate startWrites
  split_ifs
  · rfl
  · cases stop <;> rfl

end Start

/-! ## Without failures -/

section Refines

variable [DecidableEq C] [DecidableEq Digest] (L : Loro Blob C Digest) (ids : OpIds Blob Digest)
  (me : Bytes32)

variable {d : CollabDevice Blob Digest}

theorem device_step (done : d.store.migrationDone = true) (legacy : List LegacyKey)
    (e : DocEvent Blob Digest) :
    (d.step L ids me (e.unfailing legacy)).device = d.device.step L ids me e ∧
      (d.step L ids me (e.unfailing legacy)).store.migrationDone = true := by
  cases e with
  | publishDocEdit interpKey newBody aiGenerated header now => cases header <;> exact ⟨rfl, done⟩
  | docEdited op now =>
    refine ⟨?_, done⟩
    simp only [step, DocEvent.unfailing, applyDocEditCut_length]
    rfl
  | docVetoProposed op now => exact ⟨rfl, done⟩
  | proposeDocVeto interpKey target header now => exact ⟨rfl, done⟩
  | restart =>
    have nothing : migrate L ids me legacy none 0 d.store = d.store := if_pos done
    simp only [step, DocEvent.unfailing, nothing]
    exact ⟨rfl, done⟩

theorem device_firstStart (now : ℕ) (keys : List LegacyKey) :
    ((fresh : CollabDevice Blob Digest).step L ids me (.start keys none now)).device =
      Device.firstStart L ids me now keys :=
  congrArg (Device.mk · []) (migrate_docs rfl)

/-- **Without a failure a device does what `Device.step` says, from its first start on.** -/
theorem device_exec (now : ℕ) (keys : List LegacyKey) (es : List (DocEvent Blob Digest)) :
    (exec (step L ids me) fresh
        (.start keys none now :: es.map (·.unfailing keys))).device =
      exec (Device.step L ids me) (Device.firstStart L ids me now keys) es := by
  rw [exec_cons, ← device_firstStart]
  have done : ((fresh : CollabDevice Blob Digest).step L ids me
      (.start keys none now)).store.migrationDone = true := rfl
  generalize fresh.step L ids me (.start keys none now) = d at done
  induction es generalizing d with
  | nil => rfl
  | cons e es ih =>
    obtain ⟨same, still⟩ := device_step L ids me done keys e
    rw [List.map_cons, exec_cons, ih _ still, same, exec_cons]

end Refines

end CollabDevice

end Zodia.App
