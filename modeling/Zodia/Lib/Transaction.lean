import Mathlib.Logic.Basic

/-!
# Programs over a database whose calls can fail

A database has committed contents and at most one open transaction, a working copy that
becomes the contents when it is committed. A call can fail with a message, or the process can
stop in it, before or after its effect; what a call meets is given as data, so a program is a
function of its faults.

## Main definitions

* `Fault`, `Disk`, `Outcome`, `DiskM` — calls, the database, how a program ends, programs.
* `transaction` — begin, one update that is rolled back when it fails, commit.
* `bareTransaction` — the same without the rollback.
* `TransactionFaults.result`, `TransactionFaults.Lands` — the outcome of a transaction, and
  whether its update was committed, read off the faults.
* `TransactionFaults.LeftOpen` — a transaction without a rollback stays open.
-/

namespace Zodia.Lib

variable {S E α β : Type}

/-- What a call of the database meets. -/
inductive Fault where
  | none
  | fail (message : String)
  | stop (landed : Bool)
  deriving DecidableEq

/-- The committed contents, and the working copy of the transaction that is open. -/
structure Disk (S : Type) where
  committed : S
  open? : Option S

/-- Begin: a working copy of what is committed. -/
def Disk.opened (d : Disk S) : Disk S := { d with open? := some d.committed }
def Disk.updated (d : Disk S) (update : S → S) : Disk S := { d with open? := d.open?.map update }
def Disk.closed (d : Disk S) : Disk S := { d with open? := none }
def Disk.landed (d : Disk S) : Disk S := ⟨d.open?.getD d.committed, none⟩

/-- How a program ends: it returns a value or an error, or the process stops. -/
inductive Outcome (E α : Type) where
  | returned (a : α)
  | failed (e : E)
  | stopped
  deriving DecidableEq

def Outcome.isReturned : Outcome E α → Bool
  | .returned _ => true
  | _ => false

def Outcome.isFailed : Outcome E α → Bool
  | .failed _ => true
  | _ => false

def Outcome.isStopped : Outcome E α → Bool
  | .stopped => true
  | _ => false

/-- The outcome of a program and the database it leaves. -/
structure Ended (S E α : Type) where
  outcome : Outcome E α
  disk : Disk S

/-- A program over the database. -/
@[ext]
structure DiskM (S E α : Type) where
  run : Disk S → Ended S E α

namespace DiskM

protected def bind (m : DiskM S E α) (k : α → DiskM S E β) : DiskM S E β where
  run d := match m.run d with
    | ⟨.returned a, d⟩ => (k a).run d
    | ⟨.failed e, d⟩ => ⟨.failed e, d⟩
    | ⟨.stopped, d⟩ => ⟨.stopped, d⟩

instance : Monad (DiskM S E) where
  pure a := ⟨fun d => ⟨.returned a, d⟩⟩
  bind := DiskM.bind

theorem bind_run (m : DiskM S E α) (k : α → DiskM S E β) (d : Disk S) :
    (m >>= k).run d = match m.run d with
      | ⟨.returned a, d⟩ => (k a).run d
      | ⟨.failed e, d⟩ => ⟨.failed e, d⟩
      | ⟨.stopped, d⟩ => ⟨.stopped, d⟩ := rfl

@[simp] theorem pure_run (a : α) (d : Disk S) :
    (pure a : DiskM S E α).run d = ⟨.returned a, d⟩ := rfl

protected theorem id_map (m : DiskM S E α) : id <$> m = m := by
  ext1
  funext d
  change (m >>= fun a => pure (id a)).run d = m.run d
  rw [bind_run]
  rcases m.run d with ⟨_ | _ | _, _⟩ <;> rfl

protected theorem bind_assoc (m : DiskM S E α) (k : α → DiskM S E β) {γ : Type}
    (l : β → DiskM S E γ) : m >>= k >>= l = m >>= fun a => k a >>= l := by
  ext1
  funext d
  simp only [bind_run]
  rcases m.run d with ⟨_ | _ | _, _⟩ <;> rfl

instance : LawfulMonad (DiskM S E) :=
  LawfulMonad.mk' _ DiskM.id_map (fun _ _ => rfl) fun m k l => DiskM.bind_assoc m k l

section Bind

variable {m : DiskM S E α} {k : α → DiskM S E β} {d d' : Disk S}

theorem bind_returned {a : α} (h : m.run d = ⟨.returned a, d'⟩) :
    (m >>= k).run d = (k a).run d' := by
  rw [bind_run, h]

theorem bind_failed {e : E} (h : m.run d = ⟨.failed e, d'⟩) :
    (m >>= k).run d = ⟨.failed e, d'⟩ := by
  rw [bind_run, h]

theorem bind_stopped (h : m.run d = ⟨.stopped, d'⟩) : (m >>= k).run d = ⟨.stopped, d'⟩ := by
  rw [bind_run, h]

/-- A program that ends in its first part ends with what that part leaves. -/
theorem bind_ended {o : Outcome E α} (h : m.run d = ⟨o, d'⟩) (ends : ¬ o.isReturned) :
    ∃ o', (m >>= k).run d = ⟨o', d'⟩ ∧ ¬ o'.isReturned ∧ o'.isFailed = o.isFailed ∧
      o'.isStopped = o.isStopped := by
  cases o with
  | returned a => exact absurd rfl ends
  | failed e => exact ⟨_, bind_failed h, by simp [Outcome.isReturned], rfl, rfl⟩
  | stopped => exact ⟨_, bind_stopped h, by simp [Outcome.isReturned], rfl, rfl⟩

end Bind

/-- Return an error. -/
def throw (e : E) : DiskM S E α := ⟨fun d => ⟨.failed e, d⟩⟩

/-- The same program with another error. -/
def mapError {E' : Type} (g : E → E') (m : DiskM S E α) : DiskM S E' α where
  run d := match m.run d with
    | ⟨.returned a, d⟩ => ⟨.returned a, d⟩
    | ⟨.failed e, d⟩ => ⟨.failed (g e), d⟩
    | ⟨.stopped, d⟩ => ⟨.stopped, d⟩

theorem mapError_returned {E' : Type} {g : E → E'} {m : DiskM S E α} {d d' : Disk S} {a : α}
    (h : m.run d = ⟨.returned a, d'⟩) : (m.mapError g).run d = ⟨.returned a, d'⟩ := by
  simp only [mapError, h]

theorem mapError_ended {E' : Type} {g : E → E'} {m : DiskM S E α} {d d' : Disk S}
    {o : Outcome E α} (h : m.run d = ⟨o, d'⟩) (ends : ¬ o.isReturned) :
    ∃ o', (m.mapError g).run d = ⟨o', d'⟩ ∧ ¬ o'.isReturned ∧ o'.isStopped = o.isStopped := by
  cases o with
  | returned a => exact absurd rfl ends
  | failed e => exact ⟨.failed (g e), by simp only [mapError, h], by simp [Outcome.isReturned], rfl⟩
  | stopped => exact ⟨.stopped, by simp only [mapError, h], by simp [Outcome.isReturned], rfl⟩

/-- When `m` returns an error, run `handler`, drop its result and return the error. -/
def onError (m : DiskM S E α) (handler : DiskM S E Unit) : DiskM S E α where
  run d := match m.run d with
    | ⟨.failed e, d⟩ =>
      match handler.run d with
      | ⟨.stopped, d⟩ => ⟨.stopped, d⟩
      | ⟨_, d⟩ => ⟨.failed e, d⟩
    | ended => ended

/-! ## Calls -/

/-- A call: its effect, what is left of the transaction when it fails, and its error. -/
def call (fault : Fault) (effect lost : Disk S → Disk S) (error : String → E) :
    DiskM S E Unit where
  run d := match fault with
    | .none => ⟨.returned (), effect d⟩
    | .fail message => ⟨.failed (error message), lost d⟩
    | .stop landed => ⟨.stopped, if landed then effect d else d⟩

variable (fault : Fault) (error : String → E)

def begin_ : DiskM S E Unit := call fault Disk.opened id error
def write (update : S → S) : DiskM S E Unit := call fault (fun d => d.updated update) id error
/-- The permit is given up, whatever becomes of the call. -/
def commit : DiskM S E Unit := call fault Disk.landed Disk.closed error
def rollback : DiskM S E Unit := call fault Disk.closed Disk.closed error

/-- Read something of the committed contents. -/
def read (query : S → α) : DiskM S E α where
  run d := match fault with
    | .none => ⟨.returned (query d.committed), d⟩
    | .fail message => ⟨.failed (error message), d⟩
    | .stop _ => ⟨.stopped, d⟩

end DiskM

/-! ## Transactions -/

/-- What the four calls of a transaction meet. -/
structure TransactionFaults where
  begin_ : Fault
  write : Fault
  rollback : Fault
  commit : Fault
  deriving DecidableEq

def TransactionFaults.none : TransactionFaults := ⟨.none, .none, .none, .none⟩

section Transaction

variable (f : TransactionFaults) (storeError writeError : String → E) (update : S → S) (s : S)

open DiskM in
/-- One update in a transaction, rolled back when the update fails. -/
def transaction : DiskM S E Unit := do
  begin_ f.begin_ storeError
  (write f.write writeError update).onError (rollback f.rollback storeError)
  commit f.commit storeError

open DiskM in
/-- One update in a transaction, which stays open when the update fails. -/
def bareTransaction : DiskM S E Unit := do
  begin_ f.begin_ storeError
  write f.write writeError update
  commit f.commit storeError

namespace TransactionFaults

/-- How a transaction ends. -/
def result : Outcome E Unit :=
  match f.begin_, f.write, f.commit with
  | .none, .none, .none => .returned ()
  | .none, .none, .fail message => .failed (storeError message)
  | .none, .fail message, _ => match f.rollback with
    | .stop _ => .stopped
    | _ => .failed (writeError message)
  | .fail message, _, _ => .failed (storeError message)
  | _, _, _ => .stopped

/-- The update of the transaction is committed. -/
def Lands : Prop :=
  f.begin_ = .none ∧ f.write = .none ∧ (f.commit = .none ∨ f.commit = .stop true)

instance : Decidable f.Lands := inferInstanceAs (Decidable (_ ∧ _ ∧ (_ ∨ _)))

/-- How a transaction without a rollback ends. -/
def bareResult : Outcome E Unit :=
  match f.begin_, f.write, f.commit with
  | .none, .none, .none => .returned ()
  | .none, .none, .fail message => .failed (storeError message)
  | .none, .fail message, _ => .failed (writeError message)
  | .fail message, _, _ => .failed (storeError message)
  | _, _, _ => .stopped

/-- Without a rollback the transaction stays open behind the error of its update. -/
def LeftOpen : Prop := f.begin_ = .none ∧ ∃ message, f.write = .fail message

theorem LeftOpen.bareResult {f : TransactionFaults} (h : f.LeftOpen) :
    ∃ e, f.bareResult storeError writeError = .failed e := by
  obtain ⟨begun, message, written⟩ := h
  exact ⟨writeError message, by simp [TransactionFaults.bareResult, begun, written]⟩

variable {f storeError writeError}

theorem lands_of_returned (h : f.result storeError writeError = .returned ()) : f.Lands := by
  unfold result at h
  split at h <;> simp_all [Lands]
  split at h <;> simp at h

theorem not_lands_of_failed {e : E} (h : f.result storeError writeError = .failed e) :
    ¬ f.Lands := by
  rintro ⟨begun, written, committed⟩
  rcases committed with committed | committed <;>
    simp [result, begun, written, committed] at h

end TransactionFaults

/-- A transaction ends as its faults say, with its update committed if it lands. -/
theorem transaction_run : ∃ o, (transaction f storeError writeError update).run ⟨s, none⟩ =
    ⟨f.result storeError writeError, ⟨if f.Lands then update s else s, o⟩⟩ ∧
    (f.result storeError writeError ≠ .stopped → o = none) := by
  obtain ⟨b, w, r, c⟩ := f
  rcases b with _ | _ | landed
  · rcases w with _ | _ | landed
    · rcases c with _ | _ | (_ | _) <;> exact ⟨_, rfl, by simp [TransactionFaults.result]⟩
    · -- the update fails, so the transaction is rolled back
      rcases r with _ | _ | (_ | _) <;> exact ⟨_, rfl, by simp [TransactionFaults.result]⟩
    · cases landed <;> exact ⟨_, rfl, by simp [TransactionFaults.result]⟩
  · exact ⟨_, rfl, by simp [TransactionFaults.result]⟩
  · cases landed <;> exact ⟨_, rfl, by simp [TransactionFaults.result]⟩

/-- A transaction without a rollback ends as its faults say, and an error of its update
leaves it open. -/
theorem bareTransaction_run : ∃ t o,
    (bareTransaction f storeError writeError update).run ⟨s, none⟩ =
    ⟨f.bareResult storeError writeError, ⟨t, o⟩⟩ ∧ (t = s ∨ t = update s) ∧
    (f.bareResult storeError writeError = .returned () → t = update s ∧ o = none) ∧
    (∀ e, f.bareResult storeError writeError = .failed e → (o ≠ none ↔ f.LeftOpen)) := by
  obtain ⟨b, w, r, c⟩ := f
  rcases b with _ | _ | landed
  · rcases w with _ | _ | landed
    · rcases c with _ | _ | (_ | _) <;> exact ⟨_, _, rfl, by
        simp [Disk.opened, Disk.updated, TransactionFaults.bareResult, TransactionFaults.LeftOpen]⟩
    · exact ⟨_, _, rfl, by
        simp [TransactionFaults.bareResult, TransactionFaults.LeftOpen]⟩
    · cases landed <;> exact ⟨_, _, rfl, by simp [Disk.opened, TransactionFaults.bareResult]⟩
  · exact ⟨_, _, rfl, by simp [TransactionFaults.bareResult, TransactionFaults.LeftOpen]⟩
  · cases landed <;> exact ⟨_, _, rfl, by simp [TransactionFaults.bareResult]⟩

end Transaction

end Zodia.Lib
