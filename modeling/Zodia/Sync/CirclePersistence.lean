import Zodia.Lib.Transaction
import Zodia.Sync.CircleDelivery
import Zodia.Sync.LogSeparation

/-!
# Persisting the state of a circle

The wrappers of `circles/src/lib.rs` around the circle manager. The manager works out a new
groups state and a new space state and forges the operations that announce them; the wrapper
then writes the two states, each in a transaction of its own. Any call to the store may fail,
and the process may stop in any of them. The manager is that of the spaces library: it reads
the store, forges, and gives up at the first error.

## Main definitions

* `ManagerRun` — what a method of the manager does, call by call.
* `CircleCall.run` — the four operations that change circle state.
* `PersistedAtomically` — both states are written or neither is.
* `PersistFaults.Harmless` — the faults that leave an operation atomic.
-/

namespace Zodia.Sync

open Lib

variable {Digest Args Groups Space Handle Access : Type}

/-- The sync store: the operation logs and the circle state. -/
structure SyncDb (Digest Args Groups Space : Type) where
  logs : LogStore Digest Args
  circle : CircleState Groups Space

inductive CircleError where
  | store (message : String)
  | manager (message : String)
  deriving DecidableEq

/-- What a method of the manager does: it reads the store, forges operations, and returns a
value or refuses. What it does next is a function of what it has read and forged. -/
inductive ManagerRun (Digest Args Groups Space α : Type) where
  | done (a : α)
  | refused (message : String)
  | read (next : SyncDb Digest Args Groups Space → ManagerRun Digest Args Groups Space α)
  | forge (args : Args)
      (next : CircleOperation Digest Args → ManagerRun Digest Args Groups Space α)

/-- The methods of the manager that the wrappers call. -/
structure SpacesManager (Digest Args Groups Space Handle Access : Type) where
  createSpace (id : Bytes32) (initialMembers : List (Bytes32 × Access)) :
    ManagerRun Digest Args Groups Space
      (Groups × (Bytes32 × Space) × List (CircleOperation Digest Args))
  space (circleId : Bytes32) : ManagerRun Digest Args Groups Space (Option Handle)
  add (space : Handle) (member : Bytes32) (access : Access) : ManagerRun Digest Args Groups Space
    (Groups × (Bytes32 × Space) × CircleOperation Digest Args × CircleOperation Digest Args)
  remove (space : Handle) (member : Bytes32) : ManagerRun Digest Args Groups Space
    (Groups × (Bytes32 × Space) × CircleOperation Digest Args × CircleOperation Digest Args)
  process (op : CircleOperation Digest Args) :
    ManagerRun Digest Args Groups Space (Processed Groups Space)
  /-- The text of an error of the forge. -/
  describe : CircleError → String

/-! ## Faults -/

/-- What the store calls of one step of the manager meet: the read, or the look-up of the
latest entry, and the transaction of an insert. -/
structure StepFaults where
  read : Fault
  insert : TransactionFaults

/-- What the calls of an operation meet: those of the manager, step by step, in the look-up
of the space and in the method called on it, then those of the two transactions. -/
structure PersistFaults where
  lookup : ℕ → StepFaults
  manager : ℕ → StepFaults
  groups : TransactionFaults
  space : TransactionFaults

/-! ## Forging -/

section Forge

variable [DecidableEq Digest] (H : Hashes Digest Args) (me : Bytes32)

/-- The circle operation that extends the log of `me`. -/
def SyncDb.signed (db : SyncDb Digest Args Groups Space) (args : Args) :
    CircleOperation Digest Args :=
  let node : Node Digest Args := ⟨db.logs, [], []⟩
  let header := node.nextHeader H me circleLogId none (.circle args)
  ⟨⟨H.header header, header, none⟩, rfl⟩

def SyncDb.inserted (db : SyncDb Digest Args Groups Space) (op : CircleOperation Digest Args) :
    SyncDb Digest Args Groups Space :=
  { db with logs := db.logs.insertOperation op.op circleLogId }

/-- `ZodiaForge::forge`; the insert is not rolled back when it fails. -/
def forge (f : StepFaults) (args : Args) :
    DiskM (SyncDb Digest Args Groups Space) CircleError (CircleOperation Digest Args) := do
  let operation ← DiskM.read f.read CircleError.store fun db => db.signed H me args
  bareTransaction f.insert CircleError.store CircleError.store fun db => db.inserted operation
  return operation

/-- The calls of a method, each meeting its fault. The wrapper turns every error of the manager
into a `CircleError.manager`, with the text the manager gives to an error of the forge. -/
def ManagerRun.run {α : Type} (describe : CircleError → String) (faults : ℕ → StepFaults) :
    ManagerRun Digest Args Groups Space α →
    DiskM (SyncDb Digest Args Groups Space) CircleError α
  | .done a => pure a
  | .refused message => DiskM.throw (.manager message)
  | .read next => do
    let db ← DiskM.read (faults 0).read CircleError.manager id
    (next db).run describe fun n => faults (n + 1)
  | .forge args next => do
    let op ← (Sync.forge H me (faults 0) args).mapError fun e => .manager (describe e)
    (next op).run describe fun n => faults (n + 1)

end Forge

/-! ## The wrappers -/

def persistGroupsState (f : TransactionFaults) (y : Groups) :
    DiskM (SyncDb Digest Args Groups Space) CircleError Unit :=
  transaction f CircleError.store CircleError.manager fun db =>
    { db with circle := db.circle.persistGroupsState y }

def persistSpaceState (f : TransactionFaults) (spaceId : Bytes32) (y : Space) :
    DiskM (SyncDb Digest Args Groups Space) CircleError Unit :=
  transaction f CircleError.store CircleError.manager fun db =>
    { db with circle := db.circle.persistSpaceState spaceId y }

section Wrappers

variable [DecidableEq Digest] (H : Hashes Digest Args) (me : Bytes32)
  (M : SpacesManager Digest Args Groups Space Handle Access) (f : PersistFaults)

def createCircle (id : Bytes32) (initialMembers : List (Bytes32 × Access)) :
    DiskM (SyncDb Digest Args Groups Space) CircleError (List (CircleOperation Digest Args)) := do
  let (groupsY, spaceY, messages) ←
    (M.createSpace id initialMembers).run H me M.describe f.manager
  persistGroupsState f.groups groupsY
  persistSpaceState f.space spaceY.1 spaceY.2
  return messages

/-- `manager.space(circle_id)`, which has to know the circle. -/
def lookupSpace (circleId : Bytes32) :
    DiskM (SyncDb Digest Args Groups Space) CircleError Handle := do
  match ← (M.space circleId).run H me M.describe f.lookup with
  | some space => return space
  | none => DiskM.throw (.manager "no such circle")

def inviteToCircle (circleId member : Bytes32) (access : Access) :
    DiskM (SyncDb Digest Args Groups Space) CircleError
      (CircleOperation Digest Args × CircleOperation Digest Args) := do
  let space ← lookupSpace H me M f circleId
  let (groupsY, spaceY, authMessage, spaceMessage) ←
    (M.add space member access).run H me M.describe f.manager
  persistGroupsState f.groups groupsY
  persistSpaceState f.space spaceY.1 spaceY.2
  return (authMessage, spaceMessage)

def revokeFromCircle (circleId member : Bytes32) :
    DiskM (SyncDb Digest Args Groups Space) CircleError
      (CircleOperation Digest Args × CircleOperation Digest Args) := do
  let space ← lookupSpace H me M f circleId
  let (groupsY, spaceY, authMessage, spaceMessage) ←
    (M.remove space member).run H me M.describe f.manager
  persistGroupsState f.groups groupsY
  persistSpaceState f.space spaceY.1 spaceY.2
  return (authMessage, spaceMessage)

/-- `process_and_persist`, on the store as it fails. -/
def processPersisted (op : CircleOperation Digest Args) :
    DiskM (SyncDb Digest Args Groups Space) CircleError (List CircleEvent) := do
  let r ← (M.process op).run H me M.describe f.manager
  if let some groupsY := r.groupsY then
    persistGroupsState f.groups groupsY
  if let some spaceY := r.spaceY then
    persistSpaceState f.space spaceY.1 spaceY.2
  return r.events

/-! ## The four operations -/

/-- A call that changes the state of a circle. -/
inductive CircleCall (Digest Args Access : Type) where
  | create (id : Bytes32) (initialMembers : List (Bytes32 × Access))
  | invite (circleId member : Bytes32) (access : Access)
  | revoke (circleId member : Bytes32)
  | process (op : CircleOperation Digest Args)

def CircleCall.run : CircleCall Digest Args Access →
    DiskM (SyncDb Digest Args Groups Space) CircleError Unit
  | .create id initialMembers => do
    let _ ← createCircle H me M f id initialMembers
  | .invite circleId member access => do
    let _ ← inviteToCircle H me M f circleId member access
  | .revoke circleId member => do
    let _ ← revokeFromCircle H me M f circleId member
  | .process op => do
    let _ ← processPersisted H me M f op

/-- The part of the manager: the states it returns to be persisted. -/
def CircleCall.prepared : CircleCall Digest Args Access →
    DiskM (SyncDb Digest Args Groups Space) CircleError (Processed Groups Space)
  | .create id initialMembers => do
    let (groupsY, spaceY, _) ← (M.createSpace id initialMembers).run H me M.describe f.manager
    return ⟨some groupsY, some spaceY, []⟩
  | .invite circleId member access => do
    let space ← lookupSpace H me M f circleId
    let (groupsY, spaceY, _, _) ← (M.add space member access).run H me M.describe f.manager
    return ⟨some groupsY, some spaceY, []⟩
  | .revoke circleId member => do
    let space ← lookupSpace H me M f circleId
    let (groupsY, spaceY, _, _) ← (M.remove space member).run H me M.describe f.manager
    return ⟨some groupsY, some spaceY, []⟩
  | .process op => (M.process op).run H me M.describe f.manager

/-- The part of the wrapper: a transaction for each state that changed. -/
def persistState (r : Processed Groups Space) :
    DiskM (SyncDb Digest Args Groups Space) CircleError Unit := do
  if let some groupsY := r.groupsY then
    persistGroupsState f.groups groupsY
  if let some spaceY := r.spaceY then
    persistSpaceState f.space spaceY.1 spaceY.2

/-- Every operation lets the manager work and then persists what it returned. -/
theorem CircleCall.run_eq (call : CircleCall Digest Args Access) :
    call.run H me M f = call.prepared H me M f >>= persistState f := by
  cases call with
  | process op =>
    simp only [run, prepared, processPersisted, bind_assoc]
    refine congrArg _ (funext fun r => ?_)
    unfold persistState
    cases r.groupsY <;> cases r.spaceY <;> simp
  | _ => simp [run, prepared, createCircle, inviteToCircle, revokeFromCircle, persistState]

end Wrappers

/-! ## The part of the manager -/

/-- What a program of the manager leaves: the circle state is as before, and a transaction is
open behind a return only where `leaks` says so. -/
structure Prepares {α : Type} (leaks : Prop) (db : SyncDb Digest Args Groups Space)
    (e : Ended (SyncDb Digest Args Groups Space) CircleError α) : Prop where
  circle : e.disk.committed.circle = db.circle
  returned : e.outcome.isReturned → e.disk.open? = none
  leaks : (e.disk.open? ≠ none ∧ ¬ e.outcome.isStopped) ↔ leaks

section Prepares

variable {α β : Type} {leaks : Prop} {db : SyncDb Digest Args Groups Space}

/-- What counts is the disk and whether the process stopped. -/
theorem Prepares.of_ended {o : Outcome CircleError α} {o' : Outcome CircleError β}
    {d : Disk (SyncDb Digest Args Groups Space)} (p : Prepares leaks db ⟨o, d⟩)
    (ends : ¬ o'.isReturned) (same : o'.isStopped = o.isStopped) : Prepares leaks db ⟨o', d⟩ :=
  ⟨p.circle, fun h => absurd h ends, by simpa only [same] using p.leaks⟩

/-- What comes after a program of the manager and calls nothing. -/
theorem Prepares.andThen {m : DiskM (SyncDb Digest Args Groups Space) CircleError α}
    {k : α → DiskM (SyncDb Digest Args Groups Space) CircleError β}
    (p : Prepares leaks db (m.run ⟨db, none⟩))
    (calls : ∀ a d, ((k a).run d).disk = d ∧ ¬ ((k a).run d).outcome.isStopped) :
    Prepares leaks db ((m >>= k).run ⟨db, none⟩) := by
  rcases h : m.run ⟨db, none⟩ with ⟨o, d⟩
  rw [h] at p
  cases o with
  | returned a =>
    obtain ⟨disk, runs⟩ := calls a d
    rw [DiskM.bind_returned h]
    have closed : d.open? = none := p.returned rfl
    refine ⟨by rw [disk]; exact p.circle, fun _ => by rw [disk]; exact closed, ?_⟩
    rw [← p.leaks, disk]
    simp [closed]
  | failed e =>
    rw [DiskM.bind_failed h]
    exact p.of_ended (by simp [Outcome.isReturned]) rfl
  | stopped =>
    rw [DiskM.bind_stopped h]
    exact p.of_ended (by simp [Outcome.isReturned]) rfl

/-- One program of the manager after another. -/
theorem Prepares.bind {m : DiskM (SyncDb Digest Args Groups Space) CircleError α}
    {k : α → DiskM (SyncDb Digest Args Groups Space) CircleError β}
    {leaks' : α → SyncDb Digest Args Groups Space → Prop}
    (p : Prepares leaks db (m.run ⟨db, none⟩))
    (q : ∀ a db', Prepares (leaks' a db') db' ((k a).run ⟨db', none⟩)) :
    Prepares (leaks ∨ ∃ a db', m.run ⟨db, none⟩ = ⟨.returned a, ⟨db', none⟩⟩ ∧ leaks' a db') db
      ((m >>= k).run ⟨db, none⟩) := by
  rcases h : m.run ⟨db, none⟩ with ⟨o, ⟨db', t⟩⟩
  rw [h] at p
  cases o with
  | returned a =>
    obtain rfl : t = none := p.returned rfl
    have rest := q a db'
    rw [DiskM.bind_returned h]
    refine ⟨rest.circle.trans p.circle, rest.returned, ?_⟩
    have none_here : ¬ leaks := fun l => (p.leaks.2 l).1 rfl
    rw [rest.leaks]
    simp [none_here]
  | failed e =>
    rw [DiskM.bind_failed h]
    refine ⟨p.circle, by simp [Outcome.isReturned], ?_⟩
    rw [← p.leaks]
    simp [Outcome.isStopped]
  | stopped =>
    rw [DiskM.bind_stopped h]
    refine ⟨p.circle, by simp [Outcome.isReturned], ?_⟩
    rw [← p.leaks]
    simp [Outcome.isStopped]

end Prepares

section Manager

variable [DecidableEq Digest] (H : Hashes Digest Args) (me : Bytes32)

/-- An error falls on the insert of an operation that the method forges, and the transaction
of that insert stays open. -/
def ManagerRun.Leaks {α : Type} :
    ManagerRun Digest Args Groups Space α → (ℕ → StepFaults) →
    SyncDb Digest Args Groups Space → Prop
  | .done _, _, _ => False
  | .refused _, _, _ => False
  | .read next, faults, db =>
    (faults 0).read = .none ∧ (next db).Leaks (fun n => faults (n + 1)) db
  | .forge args next, faults, db =>
    (faults 0).read = .none ∧ ((faults 0).insert.LeftOpen ∨
      (faults 0).insert.bareResult CircleError.store CircleError.store = .returned () ∧
        (next (db.signed H me args)).Leaks (fun n => faults (n + 1))
          (db.inserted (db.signed H me args)))

/-- A forge either goes through, or ends the program of the manager with the circle state as
before. -/
theorem forge_run (f : StepFaults) (args : Args) (db : SyncDb Digest Args Groups Space) :
    (f.read = .none ∧ f.insert.bareResult CircleError.store CircleError.store = .returned () ∧
      (forge H me f args).run ⟨db, none⟩ = ⟨.returned (db.signed H me args),
        ⟨db.inserted (db.signed H me args), none⟩⟩) ∨
    (¬ (f.read = .none ∧
        f.insert.bareResult CircleError.store CircleError.store = .returned ()) ∧
      ∃ o d, (forge H me f args).run ⟨db, none⟩ = ⟨o, d⟩ ∧ ¬ o.isReturned ∧
        Prepares (f.read = .none ∧ f.insert.LeftOpen) db ⟨o, d⟩) := by
  cases read : f.read with
  | fail message =>
    exact .inr ⟨by simp, _, _, by simp only [forge, read]; rfl, by simp [Outcome.isReturned],
      rfl, by simp, by simp⟩
  | stop landed =>
    exact .inr ⟨by simp, _, _, by simp only [forge, read]; rfl, by simp [Outcome.isReturned],
      rfl, by simp, by simp⟩
  | none =>
    obtain ⟨t, o, run, kept, landed, openIff⟩ := bareTransaction_run f.insert CircleError.store
      CircleError.store (fun s => s.inserted (db.signed H me args)) db
    have inserts : (forge H me f args).run ⟨db, none⟩ =
        (bareTransaction f.insert CircleError.store CircleError.store
          (fun s => s.inserted (db.signed H me args)) >>= fun _ =>
          pure (db.signed H me args)).run ⟨db, none⟩ := by
      simp only [forge, read]
      rfl
    have circle : t.circle = db.circle := by rcases kept with rfl | rfl <;> rfl
    cases result : f.insert.bareResult CircleError.store CircleError.store with
    | returned u =>
      rw [result] at run
      obtain ⟨rfl, rfl⟩ := landed result
      exact .inl ⟨rfl, rfl, inserts.trans (DiskM.bind_returned run)⟩
    | failed error =>
      rw [result] at run
      exact .inr ⟨by simp, _, _, inserts.trans (DiskM.bind_failed run),
        by simp [Outcome.isReturned], circle, by simp [Outcome.isReturned],
        by simpa [Outcome.isStopped] using openIff error result⟩
    | stopped =>
      rw [result] at run
      refine .inr ⟨by simp, _, _, inserts.trans (DiskM.bind_stopped run),
        by simp [Outcome.isReturned], circle, by simp [Outcome.isReturned], ?_⟩
      have closed : ¬ f.insert.LeftOpen := fun leftOpen => by
        obtain ⟨error, failed⟩ :=
          leftOpen.bareResult CircleError.store CircleError.store
        simp [failed] at result
      simp [Outcome.isStopped, closed]

theorem ManagerRun.run_prepares {α : Type} (r : ManagerRun Digest Args Groups Space α)
    (describe : CircleError → String) (faults : ℕ → StepFaults)
    (db : SyncDb Digest Args Groups Space) :
    Prepares (r.Leaks H me faults db) db ((r.run H me describe faults).run ⟨db, none⟩) := by
  induction r generalizing faults db with
  | done a => exact ⟨rfl, fun _ => rfl, by simp [run, Leaks]⟩
  | refused message => exact ⟨rfl, fun _ => rfl, by simp [run, Leaks, DiskM.throw]⟩
  | read next ih =>
    rw [run, Leaks]
    cases read : (faults 0).read with
    | none =>
      rw [DiskM.bind_run]
      simpa [DiskM.read] using ih db _ db
    | fail message => exact ⟨rfl, fun _ => rfl, by simp [DiskM.bind_run, DiskM.read]⟩
    | stop landed => exact ⟨rfl, fun _ => rfl, by simp [DiskM.bind_run, DiskM.read]⟩
  | forge args next ih =>
    rw [run, Leaks]
    rcases forge_run H me (faults 0) args db with ⟨read, inserted, run⟩ | ⟨ends, o, d, run, nr, p⟩
    · rw [DiskM.bind_returned (DiskM.mapError_returned run)]
      have rest := ih (db.signed H me args) (fun n => faults (n + 1))
        (db.inserted (db.signed H me args))
      have closed : ¬ (faults 0).insert.LeftOpen := fun leftOpen => by
        obtain ⟨error, failed⟩ := leftOpen.bareResult CircleError.store CircleError.store
        simp [failed] at inserted
      exact ⟨rest.circle, rest.returned, by simpa [read, inserted, closed] using rest.leaks⟩
    · obtain ⟨o', run', nr', same'⟩ := DiskM.mapError_ended run nr
      obtain ⟨o'', run'', nr'', -, same''⟩ := DiskM.bind_ended run' nr'
      rw [run'']
      have leaks : ((faults 0).read = .none ∧ ((faults 0).insert.LeftOpen ∨
          (faults 0).insert.bareResult CircleError.store CircleError.store = .returned () ∧
            (next (db.signed H me args)).Leaks H me (fun n => faults (n + 1))
              (db.inserted (db.signed H me args)))) ↔
          (faults 0).read = .none ∧ (faults 0).insert.LeftOpen := by
        grind
      rw [leaks]
      exact p.of_ended nr'' (same''.trans same')

end Manager

/-! ## The part of the wrapper -/

section Atomic

variable [DecidableEq Digest] (H : Hashes Digest Args) (me : Bytes32)
  (M : SpacesManager Digest Args Groups Space Handle Access) (f : PersistFaults)

/-- The manager leaves the transaction of an insert open in a call. -/
def CircleCall.Leaks (db : SyncDb Digest Args Groups Space) :
    CircleCall Digest Args Access → Prop
  | .create id initialMembers => (M.createSpace id initialMembers).Leaks H me f.manager db
  | .invite circleId member access => (M.space circleId).Leaks H me f.lookup db ∨
    ∃ space db', (lookupSpace H me M f circleId).run ⟨db, none⟩ = ⟨.returned space, ⟨db', none⟩⟩ ∧
      (M.add space member access).Leaks H me f.manager db'
  | .revoke circleId member => (M.space circleId).Leaks H me f.lookup db ∨
    ∃ space db', (lookupSpace H me M f circleId).run ⟨db, none⟩ = ⟨.returned space, ⟨db', none⟩⟩ ∧
      (M.remove space member).Leaks H me f.manager db'
  | .process op => (M.process op).Leaks H me f.manager db

theorem lookupSpace_prepares (circleId : Bytes32) (db : SyncDb Digest Args Groups Space) :
    Prepares ((M.space circleId).Leaks H me f.lookup db) db
      ((lookupSpace H me M f circleId).run ⟨db, none⟩) := by
  refine (ManagerRun.run_prepares H me _ M.describe f.lookup db).andThen fun space d => ?_
  cases space <;> exact ⟨rfl, by simp [DiskM.throw, Outcome.isStopped]⟩

/-- Before it persists anything, a call leaves the circle state alone. -/
theorem CircleCall.prepared_prepares (call : CircleCall Digest Args Access)
    (db : SyncDb Digest Args Groups Space) :
    Prepares (call.Leaks H me M f db) db ((call.prepared H me M f).run ⟨db, none⟩) := by
  cases call with
  | create id initialMembers =>
    exact (ManagerRun.run_prepares H me _ M.describe f.manager db).andThen fun a d =>
      ⟨rfl, by simp [Outcome.isStopped]⟩
  | invite circleId member access =>
    exact (lookupSpace_prepares H me M f circleId db).bind fun space db' =>
      (ManagerRun.run_prepares H me _ M.describe f.manager db').andThen fun a d =>
        ⟨rfl, by simp [Outcome.isStopped]⟩
  | revoke circleId member =>
    exact (lookupSpace_prepares H me M f circleId db).bind fun space db' =>
      (ManagerRun.run_prepares H me _ M.describe f.manager db').andThen fun a d =>
        ⟨rfl, by simp [Outcome.isStopped]⟩
  | process op => exact ManagerRun.run_prepares H me _ M.describe f.manager db

/-- Nothing keeps the space state from following the groups state onto the disk, unless one of
them is the stored one already; behind an error that has to be the groups state. -/
def PersistFaults.Harmless (c : CircleState Groups Space) (r : Processed Groups Space) : Prop :=
  ∀ y spaceId z, r.groupsY = some y → r.spaceY = some (spaceId, z) → f.groups.Lands →
    ¬ (f.groups.result CircleError.store CircleError.manager = .returned () ∧ f.space.Lands) →
    c.groups = some y ∨ c.spaces spaceId = some z ∧
      ¬ (f.groups.result CircleError.store CircleError.manager = .returned () ∧
        (f.space.result CircleError.store CircleError.manager).isFailed)

/-- The circle state on the disk is that of before the operation or that of after it, behind
an error it is that of before, and no transaction is open on return. -/
structure PersistedAtomically {α : Type} (before after : CircleState Groups Space)
    (e : Ended (SyncDb Digest Args Groups Space) CircleError α) : Prop where
  together : e.disk.committed.circle = before ∨ e.disk.committed.circle = after
  error : e.outcome.isFailed → e.disk.committed.circle = before
  closed : ¬ e.outcome.isStopped → e.disk.open? = none

omit [DecidableEq Digest] in
theorem persistGroupsState_run (f : TransactionFaults) (y : Groups)
    (db : SyncDb Digest Args Groups Space) : ∃ o, (persistGroupsState f y).run ⟨db, none⟩ =
      ⟨f.result CircleError.store CircleError.manager,
        ⟨if f.Lands then { db with circle := db.circle.persistGroupsState y } else db, o⟩⟩ ∧
      (f.result CircleError.store CircleError.manager ≠ .stopped → o = none) :=
  transaction_run f _ _ _ db

omit [DecidableEq Digest] in
theorem persistSpaceState_run (f : TransactionFaults) (spaceId : Bytes32) (z : Space)
    (db : SyncDb Digest Args Groups Space) : ∃ o, (persistSpaceState f spaceId z).run ⟨db, none⟩ =
      ⟨f.result CircleError.store CircleError.manager,
        ⟨if f.Lands then { db with circle := db.circle.persistSpaceState spaceId z } else db, o⟩⟩ ∧
      (f.result CircleError.store CircleError.manager ≠ .stopped → o = none) :=
  transaction_run f _ _ _ db

theorem CircleState.persistGroupsState_eq_self {c : CircleState Groups Space} {y : Groups} :
    c.persistGroupsState y = c ↔ c.groups = some y := by
  obtain ⟨groups, spaces⟩ := c
  simp [CircleState.persistGroupsState, eq_comm]

theorem CircleState.eq_persistSpaceState {c : CircleState Groups Space} {spaceId : Bytes32}
    {z : Space} : c = c.persistSpaceState spaceId z ↔ c.spaces spaceId = some z := by
  obtain ⟨groups, spaces⟩ := c
  simp [CircleState.persistSpaceState]

omit [DecidableEq Digest] in
/-- One transaction alone is atomic, whatever its calls meet. -/
theorem PersistedAtomically.of_transaction {f : TransactionFaults}
    {o : Option (SyncDb Digest Args Groups Space)} (db db' : SyncDb Digest Args Groups Space)
    (closed : f.result CircleError.store CircleError.manager ≠ .stopped → o = none) :
    PersistedAtomically db.circle db'.circle
      (⟨f.result CircleError.store CircleError.manager, ⟨if f.Lands then db' else db, o⟩⟩ :
        Ended (SyncDb Digest Args Groups Space) CircleError Unit) where
  together := by
    by_cases lands : f.Lands <;> simp [lands]
  error failed := by
    cases result : f.result CircleError.store CircleError.manager with
    | failed e => simp [TransactionFaults.not_lands_of_failed result]
    | returned u => simp [result, Outcome.isFailed] at failed
    | stopped => simp [result, Outcome.isFailed] at failed
  closed returns := by
    refine closed fun stopped => ?_
    simp [stopped, Outcome.isStopped] at returns

omit [DecidableEq Digest] in
/-- The groups state alone on the disk is harmless when one of the two states is the stored
one already. -/
theorem persistedAtomically_torn {c : CircleState Groups Space} {y : Groups} {spaceId : Bytes32}
    {z : Space} {e : Ended (SyncDb Digest Args Groups Space) CircleError Unit}
    (torn : e.disk.committed.circle = c.persistGroupsState y)
    (closed : ¬ e.outcome.isStopped → e.disk.open? = none) :
    PersistedAtomically c ((c.persistGroupsState y).persistSpaceState spaceId z) e ↔
      c.groups = some y ∨ c.spaces spaceId = some z ∧ ¬ e.outcome.isFailed := by
  have groups : e.disk.committed.circle = c ↔ c.groups = some y := by
    rw [torn, CircleState.persistGroupsState_eq_self]
  have space : e.disk.committed.circle =
      (c.persistGroupsState y).persistSpaceState spaceId z ↔ c.spaces spaceId = some z := by
    rw [torn, CircleState.eq_persistSpaceState]
    rfl
  constructor
  · rintro ⟨together, error, -⟩
    rw [groups, space] at together
    rw [groups] at error
    tauto
  · intro unchanged
    refine ⟨?_, ?_, closed⟩
    · rw [groups, space]
      tauto
    · rw [groups]
      tauto

omit [DecidableEq Digest] in
/-- Both states changed: the two transactions one after the other. -/
theorem persistBoth_atomic (y : Groups) (spaceId : Bytes32) (z : Space) (events : List CircleEvent)
    (db : SyncDb Digest Args Groups Space) :
    PersistedAtomically db.circle
        ((⟨some y, some (spaceId, z), events⟩ : Processed Groups Space).persist db.circle)
        ((persistGroupsState f.groups y >>= fun _ => persistSpaceState f.space spaceId z).run
          ⟨db, none⟩) ↔
      f.Harmless db.circle ⟨some y, some (spaceId, z), events⟩ := by
  obtain ⟨o, run, closed⟩ := persistGroupsState_run f.groups y db
  cases result : f.groups.result CircleError.store CircleError.manager with
  | failed e =>
    have missed := TransactionFaults.not_lands_of_failed result
    rw [result, if_neg missed] at run
    rw [DiskM.bind_failed run]
    exact iff_of_true ⟨.inl rfl, fun _ => rfl, fun _ => closed (by simp [result])⟩
      fun _ _ _ _ _ landed => absurd landed missed
  | stopped =>
    rw [result] at run
    rw [DiskM.bind_stopped run]
    by_cases landed : f.groups.Lands
    · rw [if_pos landed]
      refine (persistedAtomically_torn rfl (by simp [Outcome.isStopped])).trans ?_
      simp [PersistFaults.Harmless, result, landed, Outcome.isFailed]
    · rw [if_neg landed]
      exact iff_of_true ⟨.inl rfl, fun _ => rfl, by simp [Outcome.isStopped]⟩
        fun _ _ _ _ _ lands => absurd lands landed
  | returned u =>
    have landed := TransactionFaults.lands_of_returned result
    rw [result, if_pos landed] at run
    obtain rfl : o = none := closed (by simp [result])
    rw [DiskM.bind_returned run]
    obtain ⟨o, run, closed⟩ := persistSpaceState_run f.space spaceId z
      { db with circle := db.circle.persistGroupsState y }
    rw [run]
    by_cases lands : f.space.Lands
    · rw [if_pos lands]
      refine iff_of_true ⟨.inr rfl, fun failed => ?_, fun returns => closed ?_⟩
        fun _ _ _ _ _ _ torn => absurd ⟨result, lands⟩ torn
      · cases ends : f.space.result CircleError.store CircleError.manager with
        | failed e => exact absurd lands (TransactionFaults.not_lands_of_failed ends)
        | returned u => simp [ends, Outcome.isFailed] at failed
        | stopped => simp [ends, Outcome.isFailed] at failed
      · intro stopped
        simp [stopped, Outcome.isStopped] at returns
    · rw [if_neg lands]
      refine (persistedAtomically_torn rfl fun returns => closed fun stopped => ?_).trans ?_
      · simp [stopped, Outcome.isStopped] at returns
      · simp [PersistFaults.Harmless, result, landed, lands]

omit [DecidableEq Digest] in
theorem persistState_atomic (r : Processed Groups Space) (db : SyncDb Digest Args Groups Space) :
    PersistedAtomically db.circle (r.persist db.circle) ((persistState f r).run ⟨db, none⟩) ↔
      f.Harmless db.circle r := by
  obtain ⟨groupsY, spaceY, events⟩ := r
  cases groupsY with
  | none =>
    refine iff_of_true ?_ (fun y spaceId z hy => by cases hy)
    cases spaceY with
    | none => exact ⟨.inl rfl, fun _ => rfl, fun _ => rfl⟩
    | some spaceY =>
      obtain ⟨o, run, closed⟩ := persistSpaceState_run f.space spaceY.1 spaceY.2 db
      change PersistedAtomically _ _ ((persistSpaceState f.space spaceY.1 spaceY.2).run ⟨db, none⟩)
      rw [run]
      exact .of_transaction db { db with circle := db.circle.persistSpaceState spaceY.1 spaceY.2 }
        closed
  | some y =>
    cases spaceY with
    | none =>
      refine iff_of_true ?_ (fun y spaceId z _ hz => by cases hz)
      obtain ⟨o, run, closed⟩ := persistGroupsState_run f.groups y db
      have whole : (persistState f (⟨some y, none, events⟩ : Processed Groups Space)) =
          (persistGroupsState f.groups y :
            DiskM (SyncDb Digest Args Groups Space) CircleError Unit) := by
        simp [persistState]
      rw [whole, run]
      exact .of_transaction db { db with circle := db.circle.persistGroupsState y } closed
    | some spaceY => exact persistBoth_atomic f y spaceY.1 spaceY.2 events db

/-- The circle state of after a call: what the manager returned, persisted. -/
def CircleCall.next (call : CircleCall Digest Args Access) (db : SyncDb Digest Args Groups Space) :
    CircleState Groups Space :=
  match ((call.prepared H me M f).run ⟨db, none⟩).outcome with
  | .returned r => r.persist db.circle
  | _ => db.circle

/-- A call is atomic exactly when the manager leaves no transaction open and, once it has
returned, no fault separates the commits of the two states. -/
theorem circle_call_atomic_iff (call : CircleCall Digest Args Access)
    (db : SyncDb Digest Args Groups Space) :
    PersistedAtomically db.circle (call.next H me M f db) ((call.run H me M f).run ⟨db, none⟩) ↔
      ¬ call.Leaks H me M f db ∧
        ∀ r d, (call.prepared H me M f).run ⟨db, none⟩ = ⟨.returned r, d⟩ →
          f.Harmless db.circle r := by
  have p := call.prepared_prepares H me M f db
  rw [CircleCall.run_eq, CircleCall.next]
  rcases h : (call.prepared H me M f).run ⟨db, none⟩ with ⟨o, ⟨db', t⟩⟩
  rw [h] at p
  have circle : db'.circle = db.circle := p.circle
  cases o with
  | returned r =>
    obtain rfl : t = none := p.returned rfl
    have closed : ¬ call.Leaks H me M f db := fun leaks => (p.leaks.2 leaks).1 rfl
    rw [DiskM.bind_returned h, ← circle, persistState_atomic]
    simp [closed, circle]
  | failed e =>
    rw [DiskM.bind_failed h]
    constructor
    · intro atomic
      refine ⟨fun leaks => (p.leaks.2 leaks).1 (atomic.closed (by simp [Outcome.isStopped])), ?_⟩
      simp
    · rintro ⟨closed, -⟩
      refine ⟨.inl circle, fun _ => circle, fun returns => ?_⟩
      by_contra opened
      exact closed (p.leaks.1 ⟨opened, by simp [Outcome.isStopped]⟩)
  | stopped =>
    rw [DiskM.bind_stopped h]
    refine iff_of_true ⟨.inl circle, by simp [Outcome.isFailed], by simp [Outcome.isStopped]⟩
      ⟨fun leaks => (p.leaks.2 leaks).2 rfl, by simp⟩

end Atomic

/-! ### A disk that fills up between the two states -/

section DiskFull

/-- A manager whose states are numbers, and which announces a new circle by one operation. -/
private def countingManager : SpacesManager Bytes Unit ℕ ℕ Unit Unit where
  createSpace id _ := .forge () fun op => .done (1, (id, 1), [op])
  space _ := .read fun _ => .done none
  add _ _ _ := .refused "no member"
  remove _ _ := .refused "no member"
  process _ := .done ⟨none, none, []⟩
  describe _ := "forge"

private def noFaults : PersistFaults :=
  ⟨fun _ => ⟨.none, .none⟩, fun _ => ⟨.none, .none⟩, .none, .none⟩

private def emptyDb : SyncDb Bytes Unit ℕ ℕ := ⟨LogStore.empty, ⟨none, fun _ => none⟩⟩

private def newCircle : CircleCall Bytes Unit Unit := .create (Vector.replicate 32 5) []

private def me1 : Bytes32 := Vector.replicate 32 1

/-- The error of the space state leaves the groups state behind. -/
theorem create_not_atomic :
    ¬ PersistedAtomically emptyDb.circle
      (newCircle.next symbolicHashes me1 countingManager
        { noFaults with space := ⟨.none, .fail "disk full", .none, .none⟩ } emptyDb)
      ((newCircle.run symbolicHashes me1 countingManager
        { noFaults with space := ⟨.none, .fail "disk full", .none, .none⟩ }).run
        ⟨emptyDb, none⟩) := by
  intro atomic
  have before := congrArg CircleState.groups (atomic.error rfl)
  exact absurd before (by decide)

/-- The error of an insert leaves its transaction open. -/
example : ((newCircle.run symbolicHashes me1 countingManager
    { noFaults with manager := fun _ => ⟨.none, ⟨.none, .fail "disk full", .none, .none⟩⟩ }).run
    ⟨emptyDb, none⟩).disk.open?.isSome := rfl

end DiskFull

end Zodia.Sync
