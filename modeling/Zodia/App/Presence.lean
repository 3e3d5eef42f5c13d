import Zodia.Lib.Run
import Zodia.Lib.Table
import Zodia.Pipeline.Stages

/-!
# Editor presence

Who has the editor of a key open, as `app/src/app.rs` keeps it: for each key the peers with their
last heartbeat. A heartbeat is the timestamp of an operation, in microseconds. Stale peers are
dropped against a cutoff that is computed in seconds, so a heartbeat is hardly ever below it.

## Main definitions

* `EditorPresence`, `pruneStalePresence`, `editorPresenceChanged`.
* `PresenceRun` — the map with what was delivered last.
* `Expires` — what pruning promises.
* `CutoffMeets` — what the promise takes.

## Main results

* `always_expires_iff` — the runs in which presence expires.
* `along_cutoffMeets_iff_of_clock` — while the clock is not set back, only the cutoff matters.
-/

namespace Zodia.App

open Lib Sync Ops Pipeline

variable {Digest : Type}

/-! ## The map -/

structure Heartbeat where
  peer : Bytes32
  lastSeen : ℕ

/-- The peers in the editor of a key. -/
structure KeyPresence where
  interpKey : String
  peers : Table Heartbeat.peer

abbrev EditorPresence := Table KeyPresence.interpKey

namespace EditorPresence

/-- The last heartbeat of a peer in the editor of a key. -/
def lastSeen (map : EditorPresence) (interpKey : String) (peer : Bytes32) : Option ℕ :=
  ((map.find? interpKey).bind fun entry => entry.peers.find? peer).map Heartbeat.lastSeen

end EditorPresence

/-- How long a peer stays present, in seconds. -/
def presenceTtlSecs : ℕ := 5 * 60

/-- The cutoff at a time in microseconds; the clock is read in seconds. -/
def presenceCutoff (nowMicros : ℕ) : ℕ := nowMicros / 10 ^ 6 - presenceTtlSecs

/-- Drop presence entries whose last-seen heartbeat is older than the cutoff. -/
def pruneStalePresence (map : EditorPresence) (nowMicros : ℕ) : EditorPresence :=
  let cutoff := presenceCutoff nowMicros
  let retained := map.update
    (fun entry =>
      { entry with peers := entry.peers.filter fun beat => decide (cutoff ≤ beat.lastSeen) })
    (fun _ => rfl)
  retained.filter fun entry => !entry.peers.rows.isEmpty

/-- A peer other than this device joins or leaves the editor of a key. -/
def editorPresenceChanged (map : EditorPresence) (interpKey : String) (peer : Bytes32)
    (joined : Bool) (timestamp : ℕ) : EditorPresence :=
  (map.insertOrIgnore ⟨interpKey, Table.empty⟩).modify interpKey
    (fun entry =>
      { entry with
        peers :=
          if joined then entry.peers.upsert ⟨peer, timestamp⟩
          else entry.peers.erase peer })
    (fun _ => rfl)

/-! ## Runs -/

/-- The map, the last delivered change of each peer, and when the map was pruned last. -/
structure PresenceRun where
  map : EditorPresence
  delivered : String → Bytes32 → Option (Bool × ℕ)
  prunedAt : ℕ

/-- The pipeline delivers a document operation, or the map is pruned before it is read. -/
inductive PresenceEvent (Digest : Type) where
  | delivered (opId : Digest) (author : Bytes32) (timestamp : ℕ) (doc : Ops.DocOp Digest)
      (nowMicros : ℕ)
  | pruned (nowMicros : ℕ)

namespace PresenceRun

def start : PresenceRun := ⟨Table.empty, fun _ _ => none, 0⟩

def prune (s : PresenceRun) (nowMicros : ℕ) : PresenceRun :=
  { s with map := pruneStalePresence s.map nowMicros, prunedAt := nowMicros }

/-- What the app does of a change of presence before it prunes. -/
def changed (s : PresenceRun) (interpKey : String) (peer : Bytes32) (joined : Bool)
    (timestamp : ℕ) : PresenceRun :=
  { s with
    map := editorPresenceChanged s.map interpKey peer joined timestamp
    delivered := fun k p =>
      if k = interpKey ∧ p = peer then some (joined, timestamp) else s.delivered k p }

/-- The state that an event prunes and the time it prunes at. Of itself the app keeps no track. -/
def pruning (me : Bytes32) (s : PresenceRun) : PresenceEvent Digest → Option (PresenceRun × ℕ)
  | .delivered opId author timestamp doc nowMicros =>
    match materializeDoc opId author timestamp doc with
    | .editorPresenceChanged _ by_ interpKey joined timestamp =>
      if by_ ≠ me then some (s.changed interpKey by_ joined timestamp, nowMicros) else none
    | _ => none
  | .pruned nowMicros => some (s, nowMicros)

def step (me : Bytes32) (s : PresenceRun) (e : PresenceEvent Digest) : PresenceRun :=
  match s.pruning me e with
  | some (s', nowMicros) => s'.prune nowMicros
  | none => s

end PresenceRun

/-- The heartbeat is at most the time to live before `nowMicros`. -/
def Fresh (timestamp nowMicros : ℕ) : Prop :=
  nowMicros ≤ timestamp + presenceTtlSecs * 10 ^ 6

/-- The peers of the map are those whose last change was to join, with a heartbeat that is fresh.
No key has an empty set. -/
structure Expires (s : PresenceRun) : Prop where
  present_iff : ∀ k p t, s.map.lastSeen k p = some t ↔
    s.delivered k p = some (true, t) ∧ Fresh t s.prunedAt
  nonempty : ∀ entry ∈ s.map, entry.peers.rows ≠ []

/-- In what is pruned the heartbeats that pass the cutoff are fresh. -/
def CutoffIsFresh (s : PresenceRun) (nowMicros : ℕ) : Prop :=
  ∀ k p t, s.map.lastSeen k p = some t → presenceCutoff nowMicros ≤ t → Fresh t nowMicros

/-- No heartbeat that was dropped is fresh again. -/
def NoneReturns (s : PresenceRun) (nowMicros : ℕ) : Prop :=
  ∀ k p t, s.delivered k p = some (true, t) → Fresh t nowMicros → s.map.lastSeen k p = some t

def CutoffMeets (me : Bytes32) (s : PresenceRun) (e : PresenceEvent Digest) : Prop :=
  ∀ s' nowMicros, s.pruning me e = some (s', nowMicros) →
    CutoffIsFresh s' nowMicros ∧ NoneReturns s' nowMicros

/-! ## One step -/

/-- A fresh heartbeat passes the cutoff, whatever its unit. -/
theorem presenceCutoff_le {t nowMicros : ℕ} (fresh : Fresh t nowMicros) :
    presenceCutoff nowMicros ≤ t := by
  unfold Fresh presenceTtlSecs at fresh
  unfold presenceCutoff presenceTtlSecs
  omega

theorem presenceCutoff_mono {a b : ℕ} (le : a ≤ b) : presenceCutoff a ≤ presenceCutoff b := by
  unfold presenceCutoff
  omega

namespace EditorPresence

variable {map : EditorPresence} {k : String} {p : Bytes32}

theorem find?_prune (nowMicros : ℕ) :
    (pruneStalePresence map nowMicros).find? k =
      ((map.find? k).map fun entry =>
        { entry with
          peers := entry.peers.filter fun beat =>
            decide (presenceCutoff nowMicros ≤ beat.lastSeen) }).filter
        fun entry => !entry.peers.rows.isEmpty := by
  rw [pruneStalePresence, Table.find?_filter, Table.find?_update]

theorem lastSeen_prune (nowMicros : ℕ) :
    (pruneStalePresence map nowMicros).lastSeen k p =
      (map.lastSeen k p).filter fun t => decide (presenceCutoff nowMicros ≤ t) := by
  rw [lastSeen, lastSeen, find?_prune]
  cases map.find? k with
  | none => rfl
  | some entry =>
    have peer (beat : Option Heartbeat) :
        (beat.map Heartbeat.lastSeen).filter (fun t => decide (presenceCutoff nowMicros ≤ t)) =
          (beat.filter fun beat => decide (presenceCutoff nowMicros ≤ beat.lastSeen)).map
            Heartbeat.lastSeen := by
      cases beat with
      | none => rfl
      | some beat =>
        by_cases passes : presenceCutoff nowMicros ≤ beat.lastSeen <;>
          simp [Option.filter_some, passes]
    rw [Option.map_some, Option.bind_some, peer, ← Table.find?_filter, Option.filter_some]
    split_ifs with some
    · rfl
    · have none : (entry.peers.filter fun beat =>
          decide (presenceCutoff nowMicros ≤ beat.lastSeen)).rows = [] := by simpa using some
      rw [Table.find?, none]
      rfl

theorem nonempty_prune (nowMicros : ℕ) :
    ∀ entry ∈ pruneStalePresence map nowMicros, entry.peers.rows ≠ [] := by
  intro entry mem empty
  have kept := (Table.mem_filter.1 mem).2
  simp [empty] at kept

/-- `entry(…).or_default()` -/
theorem find?_entry (interpKey : String) :
    (map.insertOrIgnore ⟨interpKey, Table.empty⟩).find? k =
      if interpKey = k then some ((map.find? k).getD ⟨interpKey, Table.empty⟩)
      else map.find? k := by
  by_cases free : map.Free interpKey
  · rw [Table.find?_insertOrIgnore free]
    split_ifs with same
    · rw [← same, Table.find?_eq_none.2 free]
      rfl
    · rfl
  · rw [Table.insertOrIgnore_of_taken free]
    split_ifs with same
    · cases found : map.find? k with
      | none => exact absurd (Table.find?_eq_none.1 found) (same ▸ free)
      | some entry => rfl
    · rfl

theorem lastSeen_changed (interpKey : String) (peer : Bytes32) (joined : Bool) (timestamp : ℕ) :
    (editorPresenceChanged map interpKey peer joined timestamp).lastSeen k p =
      if k = interpKey ∧ p = peer then (if joined then some timestamp else none)
      else map.lastSeen k p := by
  rw [lastSeen, editorPresenceChanged, Table.find?_modify, find?_entry]
  by_cases same : interpKey = k
  · subst same
    have before : map.lastSeen interpKey p =
        (((map.find? interpKey).getD ⟨interpKey, Table.empty⟩).peers.find? p).map
          Heartbeat.lastSeen := by
      rw [lastSeen]
      cases map.find? interpKey <;> rfl
    rw [if_pos rfl, if_pos rfl, Option.map_some, Option.bind_some, before]
    cases joined with
    | true =>
      simp only [if_true, Table.find?_upsert, true_and]
      split_ifs with here here' here' <;> grind
    | false =>
      simp only [Bool.false_eq_true, if_false, Table.find?_erase, true_and]
      split_ifs with here here' here' <;> grind
  · rw [if_neg same, if_neg same, if_neg (fun both => same both.1.symm)]
    rfl

end EditorPresence

namespace PresenceRun

variable {me : Bytes32} {s : PresenceRun}

/-- The map holds heartbeats of joins that no change followed. -/
def Tracked (s : PresenceRun) : Prop :=
  ∀ k p t, s.map.lastSeen k p = some t → s.delivered k p = some (true, t)

theorem tracked_changed (tracked : s.Tracked) (interpKey : String) (peer : Bytes32)
    (joined : Bool) (timestamp : ℕ) : (s.changed interpKey peer joined timestamp).Tracked := by
  intro k p t seen
  simp only [changed, EditorPresence.lastSeen_changed] at seen ⊢
  split_ifs at seen ⊢ with same join
  · rw [join, Option.some.inj seen]
  · exact tracked k p t seen

/-- What is pruned is the state, after a change of presence if one was delivered. -/
theorem pruning_cases {e : PresenceEvent Digest} {s' : PresenceRun} {nowMicros : ℕ}
    (pruned : s.pruning me e = some (s', nowMicros)) :
    s' = s ∨ ∃ interpKey peer joined timestamp,
      s' = s.changed interpKey peer joined timestamp := by
  unfold pruning at pruned
  split at pruned
  · split at pruned
    · split_ifs at pruned
      exact .inr ⟨_, _, _, _, (Prod.mk.inj (Option.some.inj pruned)).1.symm⟩
    · cases pruned
  · exact .inl (Prod.mk.inj (Option.some.inj pruned)).1.symm

theorem tracked_pruning (tracked : s.Tracked) {e : PresenceEvent Digest} {s' : PresenceRun}
    {nowMicros : ℕ} (pruned : s.pruning me e = some (s', nowMicros)) : s'.Tracked := by
  rcases pruning_cases pruned with rfl | ⟨interpKey, peer, joined, timestamp, rfl⟩
  · exact tracked
  · exact tracked_changed tracked interpKey peer joined timestamp

theorem lastSeen_prune_eq_some {nowMicros t : ℕ} {k : String} {p : Bytes32} :
    (s.prune nowMicros).map.lastSeen k p = some t ↔
      s.map.lastSeen k p = some t ∧ presenceCutoff nowMicros ≤ t := by
  rw [prune, EditorPresence.lastSeen_prune, Option.filter_eq_some_iff, decide_eq_true_eq]

/-- Pruning keeps the promise exactly if the cutoff tells fresh heartbeats from others and none
of them is missing. -/
theorem expires_prune_iff (tracked : s.Tracked) (nowMicros : ℕ) :
    Expires (s.prune nowMicros) ↔ CutoffIsFresh s nowMicros ∧ NoneReturns s nowMicros := by
  constructor
  · intro expires
    constructor
    · intro k p t seen passes
      exact ((expires.present_iff k p t).1 (lastSeen_prune_eq_some.2 ⟨seen, passes⟩)).2
    · intro k p t joined fresh
      exact (lastSeen_prune_eq_some.1 ((expires.present_iff k p t).2 ⟨joined, fresh⟩)).1
  · rintro ⟨cutoff, none⟩
    refine ⟨fun k p t => ?_, EditorPresence.nonempty_prune nowMicros⟩
    rw [lastSeen_prune_eq_some]
    constructor
    · rintro ⟨seen, passes⟩
      exact ⟨tracked k p t seen, cutoff k p t seen passes⟩
    · rintro ⟨joined, fresh⟩
      exact ⟨none k p t joined fresh, presenceCutoff_le fresh⟩

theorem tracked_step (tracked : s.Tracked) (e : PresenceEvent Digest) : (s.step me e).Tracked := by
  unfold step
  split
  · next s' nowMicros pruned =>
    intro k p t seen
    exact tracked_pruning tracked pruned k p t (lastSeen_prune_eq_some.1 seen).1
  · exact tracked

theorem expires_step_iff (tracked : s.Tracked) (expires : Expires s) (e : PresenceEvent Digest) :
    Expires (s.step me e) ↔ CutoffMeets me s e := by
  unfold step CutoffMeets
  split
  · next s' nowMicros pruned =>
    rw [expires_prune_iff (tracked_pruning tracked pruned)]
    constructor
    · intro meets s'' now same
      obtain ⟨rfl, rfl⟩ := Prod.mk.inj (Option.some.inj (pruned.symm.trans same))
      exact meets
    · exact fun meets => meets s' nowMicros pruned
  · next none =>
    refine iff_of_true expires fun s' nowMicros pruned => ?_
    rw [none] at pruned
    cases pruned

end PresenceRun

/-! ## Runs -/

/-- **Presence expires exactly in the runs in which, whenever the map is pruned, the heartbeats
that pass the cutoff are fresh and no dropped one is fresh again.** -/
theorem always_expires_iff (me : Bytes32) (events : List (PresenceEvent Digest)) :
    Always (PresenceRun.step me) Expires .start events ↔
      Along (PresenceRun.step me) (CutoffMeets me) .start events := by
  have start : Expires .start := by
    refine ⟨fun k p t => ?_, fun entry mem => absurd mem (Table.not_mem_empty entry)⟩
    refine iff_of_false ?_ fun both => ?_
    · exact Option.some_ne_none t ∘ Eq.symm
    · exact Option.some_ne_none _ both.1.symm
  have tracked : PresenceRun.start.Tracked := fun k p t seen =>
    absurd seen.symm (Option.some_ne_none t)
  have exactly : ∀ s, ∀ e ∈ events, s.Tracked → Expires s →
      (Expires (s.step me e) ↔ CutoffMeets me s e) :=
    fun _ e _ tracked expires => PresenceRun.expires_step_iff tracked expires e
  rw [always_iff_along (fun _ e _ tracked => PresenceRun.tracked_step tracked e) exactly tracked]
  exact and_iff_right start

/-- The clock is not set back. -/
def ClockGoesOn (me : Bytes32) (s : PresenceRun) (e : PresenceEvent Digest) : Prop :=
  ∀ s' nowMicros, s.pruning me e = some (s', nowMicros) → s.prunedAt ≤ nowMicros

/-- The heartbeats in what an event prunes that pass the cutoff are fresh. -/
def PassesFresh (me : Bytes32) (s : PresenceRun) (e : PresenceEvent Digest) : Prop :=
  ∀ s' nowMicros, s.pruning me e = some (s', nowMicros) → CutoffIsFresh s' nowMicros

namespace PresenceRun

variable {me : Bytes32} {s : PresenceRun}

/-- A join that is not in the map was below a cutoff. -/
def DroppedBelow (s : PresenceRun) : Prop :=
  ∀ k p t, s.delivered k p = some (true, t) →
    s.map.lastSeen k p = some t ∨ t < presenceCutoff s.prunedAt

theorem droppedBelow_changed (below : s.DroppedBelow) (interpKey : String) (peer : Bytes32)
    (joined : Bool) (timestamp : ℕ) :
    (s.changed interpKey peer joined timestamp).DroppedBelow := by
  intro k p t join
  simp only [changed, EditorPresence.lastSeen_changed] at join ⊢
  split_ifs at join ⊢ with same joins
  · obtain ⟨-, rfl⟩ := Prod.mk.inj (Option.some.inj join)
    exact .inl rfl
  · exact absurd (Prod.mk.inj (Option.some.inj join)).1 joins
  · exact below k p t join

theorem droppedBelow_pruning (below : s.DroppedBelow) {e : PresenceEvent Digest}
    {s' : PresenceRun} {nowMicros : ℕ} (pruned : s.pruning me e = some (s', nowMicros)) :
    s'.DroppedBelow ∧ s'.prunedAt = s.prunedAt := by
  rcases pruning_cases pruned with rfl | ⟨interpKey, peer, joined, timestamp, rfl⟩
  · exact ⟨below, rfl⟩
  · exact ⟨droppedBelow_changed below interpKey peer joined timestamp, rfl⟩

theorem droppedBelow_step (below : s.DroppedBelow) {e : PresenceEvent Digest}
    (clock : ClockGoesOn me s e) : (s.step me e).DroppedBelow := by
  unfold step
  split
  · next s' nowMicros pruned =>
    obtain ⟨below', at_⟩ := droppedBelow_pruning below pruned
    intro k p t join
    rw [lastSeen_prune_eq_some]
    rcases below' k p t join with seen | low
    · rcases Nat.lt_or_ge t (presenceCutoff nowMicros) with lt | ge
      · exact .inr lt
      · exact .inl ⟨seen, ge⟩
    · rw [at_] at low
      exact .inr (low.trans_le (presenceCutoff_mono (clock s' nowMicros pruned)))
  · exact below

theorem cutoffMeets_iff_of_clock (below : s.DroppedBelow) {e : PresenceEvent Digest}
    (clock : ClockGoesOn me s e) : CutoffMeets me s e ↔ PassesFresh me s e := by
  refine ⟨fun meets s' now pruned => (meets s' now pruned).1, fun passes s' now pruned => ?_⟩
  obtain ⟨below', at_⟩ := droppedBelow_pruning below pruned
  refine ⟨passes s' now pruned, fun k p t join fresh => ?_⟩
  rcases below' k p t join with seen | low
  · exact seen
  · rw [at_] at low
    have later := low.trans_le (presenceCutoff_mono (clock s' now pruned))
    exact absurd (presenceCutoff_le fresh) (Nat.not_le.2 later)

end PresenceRun

/-- While the clock is not set back, only the unit of the cutoff matters. -/
theorem along_cutoffMeets_iff_of_clock {me : Bytes32} {events : List (PresenceEvent Digest)}
    (clock : Along (PresenceRun.step me) (ClockGoesOn me) .start events) :
    Along (PresenceRun.step me) (CutoffMeets me) .start events ↔
      Along (PresenceRun.step me) (PassesFresh me) .start events := by
  have keep : ∀ (s : PresenceRun) (e : PresenceEvent Digest), s.DroppedBelow →
      ClockGoesOn me s e → PassesFresh me s e → (s.step me e).DroppedBelow :=
    fun s e below clock _ => PresenceRun.droppedBelow_step below clock
  have start : PresenceRun.start.DroppedBelow := fun k p t join =>
    absurd join.symm (Option.some_ne_none _)
  exact Along.congr keep (fun s e below clock => PresenceRun.cutoffMeets_iff_of_clock below clock)
    start clock

/-! ## A heartbeat an hour old -/

/-- A peer opens the editor and is not heard of again, and an hour later the map is read. -/
def anHourLater : List (PresenceEvent ℕ) :=
  [.delivered 0 (Vector.replicate 32 2) (10 ^ 15) (.editorPresence "natal:moon_trine_venus" true)
      (10 ^ 15),
    .pruned (10 ^ 15 + 3600 * 10 ^ 6)]

theorem still_present :
    (exec (PresenceRun.step (Vector.replicate 32 1)) .start anHourLater).map.lastSeen
      "natal:moon_trine_venus" (Vector.replicate 32 2) = some (10 ^ 15) := by
  decide +kernel

/-- The heartbeat is far above a cutoff in seconds, so the peer stays present. -/
theorem presence_stays :
    ¬ Always (PresenceRun.step (Vector.replicate 32 1)) Expires .start anHourLater := by
  intro always
  have fresh := ((always.last.present_iff _ _ _).1 still_present).2
  have late : ¬ Fresh (10 ^ 15) (10 ^ 15 + 3600 * 10 ^ 6) := by
    unfold Fresh presenceTtlSecs
    omega
  exact late fresh

end Zodia.App
