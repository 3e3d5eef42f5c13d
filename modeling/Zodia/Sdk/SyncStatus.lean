import Zodia.Lib.Primitives
import Zodia.Lib.Run
import Zodia.Lib.Table

/-!
# The sync status

Every open topic runs its own sync sessions, and its forwarder passes their beginning and end on
to the client loop. What is passed on names the peer and not the topic, and the loop keeps one
boolean for each peer: it shows how the session ended that was last heard of, also while another
session with the same peer is running.

## Main definitions

* `SyncEvent`, `forward` — what a forwarder makes of the event of a session.
* `handle`, `statusFrom` — what the loop keeps and shows.
* `StatusState.Honest` — no peer that counts as caught up has a session running.
-/

namespace Zodia.Sdk

open Lib

variable {Topic : Type}

/-! ## The loop -/

/-- What happens to a session of a topic. -/
inductive TopicLogSyncEvent where
  | syncStarted
  | syncFinished (receivedOps receivedBytes : ℕ)
  | failed (error : String)

/-- The lifecycle events of the sync node. -/
inductive SyncEvent where
  | syncStarted (remote : Bytes32)
  | syncFinished (remote : Bytes32) (receivedOps receivedBytes : ℕ)
  | failed (remote : Bytes32) (error : String)

/-- The lifecycle events of the client. -/
inductive SyncLifecycleEvent where
  | started (remote : Bytes32)
  | finished (remote : Bytes32) (receivedOps : ℕ)
  | failed (remote : Bytes32) (error : String)

structure SyncStatus where
  peersKnown : ℕ
  peersCaughtUp : ℕ
  deriving DecidableEq

/-- Whether each peer is caught up. -/
abbrev CaughtUpMap := Table fun entry : Bytes32 × Bool => entry.1

/-- The forwarder of a topic, for a session with `remote`. -/
def forward (remote : Bytes32) : TopicLogSyncEvent → SyncEvent
  | .syncStarted => .syncStarted remote
  | .syncFinished receivedOps receivedBytes => .syncFinished remote receivedOps receivedBytes
  | .failed error => .failed remote error

def statusFrom (peerCaughtUp : CaughtUpMap) : SyncStatus :=
  ⟨peerCaughtUp.rows.length, peerCaughtUp.rows.countP (·.2)⟩

/-- What the loop keeps of an event, and what it reports. -/
def handle (peerCaughtUp : CaughtUpMap) : SyncEvent → CaughtUpMap × SyncLifecycleEvent
  | .syncStarted remote => (peerCaughtUp.upsert (remote, false), .started remote)
  | .syncFinished remote receivedOps _ =>
    (peerCaughtUp.upsert (remote, true), .finished remote receivedOps)
  | .failed remote error => (peerCaughtUp.upsert (remote, false), .failed remote error)

/-! ## The sessions -/

/-- A sync session: one of several with a peer on a topic. -/
structure Session (Topic : Type) where
  topic : Topic
  remote : Bytes32
  number : ℕ
  deriving DecidableEq

/-- The state of the loop, and the sessions that were started and neither finished nor failed.
The program keeps no such record. -/
structure StatusState (Topic : Type) where
  peerCaughtUp : CaughtUpMap
  running : List (Session Topic)

namespace StatusState

def fresh : StatusState Topic := ⟨Table.empty, []⟩

section Step

variable [DecidableEq Topic]

def runningAfter (running : List (Session Topic)) (session : Session Topic) :
    TopicLogSyncEvent → List (Session Topic)
  | .syncStarted => session :: running
  | .syncFinished .. | .failed _ => running.filter (· ≠ session)

/-- The loop handles an event of a session. -/
def step (s : StatusState Topic) (e : Session Topic × TopicLogSyncEvent) : StatusState Topic :=
  ⟨(handle s.peerCaughtUp (forward e.1.remote e.2)).1, runningAfter s.running e.1 e.2⟩

end Step

variable (s : StatusState Topic)

/-- Every session with a peer that counts as caught up is over. -/
def Honest : Prop :=
  ∀ remote, (remote, true) ∈ s.peerCaughtUp → ∀ session ∈ s.running, session.remote ≠ remote

/-- A session that finishes is the only one that runs with its peer. -/
def Alone : Session Topic × TopicLogSyncEvent → Prop
  | (session, .syncFinished ..) =>
    ∀ other ∈ s.running, other.remote = session.remote → other = session
  | _ => True

/-- An honest status counts at most the known peers without a running session. -/
theorem Honest.peersCaughtUp_le {s : StatusState Topic} (h : s.Honest) :
    (statusFrom s.peerCaughtUp).peersCaughtUp ≤
      s.peerCaughtUp.rows.countP fun entry =>
        s.running.all fun session => session.remote ≠ entry.1 := by
  refine List.countP_mono_left fun entry mem caughtUp => ?_
  refine List.all_eq_true.2 fun session running => decide_eq_true ?_
  have counted : (entry.1, true) ∈ s.peerCaughtUp := by rwa [← caughtUp]
  exact h entry.1 counted session running

variable [DecidableEq Topic] {s}

/-- The peer of an event that does not finish a session is not caught up. -/
theorem Honest.of_false (h : s.Honest) {session : Session Topic} {e : TopicLogSyncEvent}
    (kept : (handle s.peerCaughtUp (forward session.remote e)).1 =
      s.peerCaughtUp.upsert (session.remote, false))
    (running : ∀ other ∈ runningAfter s.running session e, other ∈ s.running ∨ other = session) :
    (s.step (session, e)).Honest := by
  intro remote caughtUp other mem
  rw [step, kept] at caughtUp
  rcases Table.mem_upsert.1 caughtUp with ⟨old, different⟩ | same
  · rcases running other mem with was | rfl
    · exact h remote old other was
    · exact fun same => different same.symm
  · cases same

theorem Honest.syncFinished_iff (h : s.Honest) (session : Session Topic)
    (receivedOps receivedBytes : ℕ) :
    (s.step (session, .syncFinished receivedOps receivedBytes)).Honest ↔
      s.Alone (session, .syncFinished receivedOps receivedBytes) := by
  constructor
  · intro honest other running same
    by_contra different
    have left : other ∈ s.running.filter (· ≠ session) :=
      List.mem_filter.2 ⟨running, decide_eq_true different⟩
    exact honest session.remote (Table.mem_upsert.2 (.inr rfl)) other left same
  · intro alone remote caughtUp other mem
    obtain ⟨running, different⟩ := List.mem_filter.1 mem
    rcases Table.mem_upsert.1 caughtUp with ⟨old, -⟩ | same
    · exact h remote old other running
    · obtain ⟨rfl, -⟩ := Prod.mk.inj same
      exact fun peer => of_decide_eq_true different (alone other running peer)

theorem Honest.step_iff (h : s.Honest) (e : Session Topic × TopicLogSyncEvent) :
    (s.step e).Honest ↔ s.Alone e := by
  obtain ⟨session, e⟩ := e
  cases e with
  | syncStarted =>
    refine iff_of_true (h.of_false rfl fun other mem => ?_) trivial
    exact (List.mem_cons.1 mem).symm
  | syncFinished receivedOps receivedBytes => exact h.syncFinished_iff session _ _
  | failed error =>
    refine iff_of_true (h.of_false rfl fun other mem => ?_) trivial
    exact .inl (List.mem_filter.1 mem).1

end StatusState

/-! ## Runs -/

variable [DecidableEq Topic]

/-- The status is honest after every event exactly if each session that finishes is the only one
that runs with its peer. -/
theorem status_honest_iff (es : List (Session Topic × TopicLogSyncEvent)) :
    Always StatusState.step StatusState.Honest .fresh es ↔
      Along StatusState.step StatusState.Alone .fresh es := by
  have start : (StatusState.fresh : StatusState Topic).Honest :=
    fun remote mem => absurd mem (Table.not_mem_empty _)
  have keep : ∀ (s : StatusState Topic), ∀ e ∈ es, True → True := fun _ _ _ _ => trivial
  rw [always_iff_along keep (fun s e _ _ honest => honest.step_iff e) trivial]
  exact and_iff_right start

/-- A peer counts as caught up when one of its two sessions has finished. -/
theorem caught_up_while_running :
    let remote : Bytes32 := Vector.replicate 32 1
    let es : List (Session ℕ × TopicLogSyncEvent) :=
      [(⟨0, remote, 0⟩, .syncStarted), (⟨1, remote, 0⟩, .syncStarted),
        (⟨0, remote, 0⟩, .syncFinished 3 90)]
    (statusFrom (exec StatusState.step .fresh es).peerCaughtUp).peersCaughtUp = 1 ∧
      ¬ Always StatusState.step StatusState.Honest .fresh es := by
  refine ⟨by decide, fun honest => ?_⟩
  exact honest.last (Vector.replicate 32 1) (List.mem_singleton.2 rfl) ⟨1, Vector.replicate 32 1, 0⟩
    (List.mem_singleton.2 rfl) rfl

end Zodia.Sdk
