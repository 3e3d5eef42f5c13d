import Zodia.Lib.Table
import Zodia.Sync.Network

/-!
# Subscriptions

The loop of the client opens and closes the topics of single keys. `Subscribe` opens one for
good, `TouchSubscription` for a grace period, and both keep their topics in one set. The timer
of a touch is never cancelled: when it fires, the loop looks whether the key was touched since,
and does not look whether it was subscribed to.

## Main definitions

* `SubscriptionState` — the node, the touches on record, the timers and the keys whose timers
  have fired.
* `SubscriptionState.step` — commands, the clock, timers and expired keys in any order.
* `SubscriptionState.StaysOpen` — the topics of all keys that were subscribed to are open.
-/

namespace Zodia.Sdk

open Lib Sync

variable {Digest Args : Type}

/-! ## The model -/

/-- When a key was last touched, and for how long. -/
structure Touch where
  interpKey : String
  touchedAt : ℕ
  grace : ℕ

/-- The state of the loop. `subscribed` are the keys for which `Subscribe` succeeded and no
`Unsubscribe` has followed; the program keeps no such record. Times are in nanoseconds. -/
structure SubscriptionState (Digest Args : Type) where
  node : Node Digest Args
  lastTouch : Table Touch.interpKey
  timers : List (String × ℕ)
  expiry : List String
  now : ℕ
  subscribed : List String

/-- `opened` says whether a stream for a topic that is not open can be opened. -/
inductive SubscriptionEvent (Digest Args : Type) where
  | subscribe (interpKey : String) (opened : Bool)
  | unsubscribe (interpKey : String)
  | touchSubscription (interpKey : String) (grace : ℕ) (opened : Bool)
  /-- Any other command, or an operation that arrives. -/
  | other (e : NodeEvent Digest Args)
  | pass (nanos : ℕ)
  /-- The sleep of the timer at place `i` is over. -/
  | timerFires (i : ℕ)
  /-- The loop receives the next expired key. -/
  | expired

/-- `Subscribe` and `Unsubscribe` are no other commands, and the client runs on. -/
def SubscriptionEvent.Plain : SubscriptionEvent Digest Args → Prop
  | .other e => (∀ interpKey, e ≠ .unsubscribe interpKey) ∧ ∀ keyBundle, e ≠ .restart keyBundle
  | _ => True

namespace SubscriptionState

section Model

variable [DecidableEq Digest] (H : Hashes Digest Args) (me : Bytes32)
  (s : SubscriptionState Digest Args)

/-- A client whose node has just started. -/
def fresh (node : Node Digest Args) : SubscriptionState Digest Args :=
  ⟨node, Table.empty, [], [], 0, []⟩

/-- Whether `ZodiaSyncNode::subscribe` succeeds. -/
def subscribes (interpKey : String) (opened : Bool) : Bool :=
  decide (topicKeyForInterp H interpKey ∈ s.node.handles) || opened

omit [DecidableEq Digest] in
/-- The key was not touched for as long as its last touch asked for. -/
def stillIdle (interpKey : String) : Bool :=
  (s.lastTouch.find? interpKey).any fun touch => touch.grace ≤ s.now - touch.touchedAt

def step : SubscriptionEvent Digest Args → SubscriptionState Digest Args
  | .subscribe interpKey opened =>
    if s.subscribes H interpKey opened then
      { s with
        node := s.node.subscribe H interpKey
        subscribed := interpKey :: s.subscribed }
    else s
  | .unsubscribe interpKey =>
    { s with
      node := s.node.unsubscribe H interpKey
      subscribed := s.subscribed.filter (· ≠ interpKey) }
  | .touchSubscription interpKey grace opened =>
    if s.subscribes H interpKey opened then
      { s with
        node := s.node.subscribe H interpKey
        lastTouch := s.lastTouch.upsert ⟨interpKey, s.now, grace⟩
        timers := s.timers ++ [(interpKey, s.now + grace)] }
    else s
  | .other e => { s with node := s.node.step H me e }
  | .pass nanos => { s with now := s.now + nanos }
  | .timerFires i =>
    match s.timers[i]? with
    | some (interpKey, due) =>
      if due ≤ s.now then
        { s with
          timers := s.timers.eraseIdx i
          expiry := s.expiry ++ [interpKey] }
      else s
    | none => s
  | .expired =>
    match s.expiry with
    | [] => s
    | expiredKey :: rest =>
      if s.stillIdle expiredKey then
        { s with
          node := s.node.unsubscribe H expiredKey
          lastTouch := s.lastTouch.erase expiredKey
          expiry := rest }
      else { s with expiry := rest }

/-- The topic of every key that was subscribed to is open. -/
def StaysOpen : Prop := ∀ interpKey ∈ s.subscribed, topicKeyForInterp H interpKey ∈ s.node.handles

/-- An expired key that is idle was not subscribed to. -/
def Spares : SubscriptionEvent Digest Args → Prop
  | .expired => ∀ expiredKey rest, s.expiry = expiredKey :: rest → s.stillIdle expiredKey →
    expiredKey ∉ s.subscribed
  | _ => True

/-- A key is subscribed to while no touch of it is on record, and not touched while it is
subscribed to. -/
def Separate : SubscriptionEvent Digest Args → Prop
  | .subscribe interpKey _ => s.lastTouch.find? interpKey = none
  | .touchSubscription interpKey _ _ => interpKey ∉ s.subscribed
  | _ => True

end Model

/-! ## Steps -/

variable [DecidableEq Digest] {H : Hashes Digest Args} {me : Bytes32}
  {s : SubscriptionState Digest Args}

omit [DecidableEq Digest] in
/-- A command that only opens topics. -/
theorem StaysOpen.of_subset (h : s.StaysOpen H) {s' : SubscriptionState Digest Args}
    (subscribed : s'.subscribed = s.subscribed)
    (handles : s.node.handles ⊆ s'.node.handles) : s'.StaysOpen H :=
  fun interpKey mem => handles (h interpKey (subscribed ▸ mem))

theorem subset_subscribe (interpKey : String) :
    s.node.handles ⊆ (s.node.subscribe H interpKey).handles :=
  fun _ open_ => mem_handles_openTopic.2 (.inr open_)

variable (hash_inj : Function.Injective H.hash)

include hash_inj

/-- Closing the topic of a key closes no other. -/
theorem mem_handles_unsubscribe {nd : Node Digest Args} {interpKey other : String} :
    topicKeyForInterp H other ∈ (nd.unsubscribe H interpKey).handles ↔
      topicKeyForInterp H other ∈ nd.handles ∧ other ≠ interpKey := by
  have same : topicKeyForInterp H other = topicKeyForInterp H interpKey ↔ other = interpKey :=
    ⟨topicKeyForInterp_injective hash_inj, congrArg _⟩
  simp [Node.unsubscribe, same]

theorem StaysOpen.unsubscribe (h : s.StaysOpen H) (interpKey : String) :
    (s.step H me (.unsubscribe interpKey)).StaysOpen H := by
  intro other mem
  obtain ⟨subscribed, different⟩ := List.mem_filter.1 mem
  exact (mem_handles_unsubscribe hash_inj).2 ⟨h other subscribed, by simpa using different⟩

/-- The expiry of a key leaves the subscriptions open exactly if it spares them. -/
theorem StaysOpen.expired_iff (h : s.StaysOpen H) :
    (s.step H me .expired).StaysOpen H ↔ s.Spares .expired := by
  cases expiry : s.expiry with
  | nil =>
    have same : s.step H me .expired = s := by simp only [step, expiry]
    rw [same]
    exact iff_of_true h (by simp [Spares, expiry])
  | cons expiredKey rest =>
    cases idle : s.stillIdle expiredKey with
    | false =>
      have same : s.step H me .expired = { s with expiry := rest } := by
        simp [step, expiry, idle]
      rw [same]
      exact iff_of_true h (by simp [Spares, expiry, idle])
    | true =>
      have after : s.step H me .expired =
          { s with
            node := s.node.unsubscribe H expiredKey
            lastTouch := s.lastTouch.erase expiredKey
            expiry := rest } := by
        simp only [step, expiry, idle, if_true]
      have spares : s.Spares .expired ↔ expiredKey ∉ s.subscribed := by
        simp [Spares, expiry, idle]
      rw [after, spares]
      constructor
      · intro stays subscribed
        exact ((mem_handles_unsubscribe hash_inj).1 (stays expiredKey subscribed)).2 rfl
      · intro unsubscribed other subscribed
        refine (mem_handles_unsubscribe hash_inj).2 ⟨h other subscribed, ?_⟩
        rintro rfl
        exact unsubscribed subscribed

theorem StaysOpen.step_iff (h : s.StaysOpen H) {e : SubscriptionEvent Digest Args}
    (enabled : e.Plain) : (s.step H me e).StaysOpen H ↔ s.Spares e := by
  cases e with
  | expired => exact h.expired_iff hash_inj
  | unsubscribe interpKey => exact iff_of_true (h.unsubscribe hash_inj interpKey) trivial
  | subscribe interpKey opened =>
    refine iff_of_true ?_ trivial
    rw [step]
    split
    · intro other mem
      rcases List.mem_cons.1 mem with rfl | old
      · exact mem_handles_openTopic.2 (.inl rfl)
      · exact subset_subscribe interpKey (h other old)
    · exact h
  | touchSubscription interpKey grace opened =>
    refine iff_of_true ?_ trivial
    rw [step]
    split
    · exact h.of_subset rfl (subset_subscribe interpKey)
    · exact h
  | other e =>
    refine iff_of_true (h.of_subset rfl fun topic open_ => ?_) trivial
    exact mem_handles_step open_ enabled.1 enabled.2
  | pass nanos => exact iff_of_true h trivial
  | timerFires i =>
    refine iff_of_true ?_ trivial
    simp only [step]
    split
    · split <;> exact h
    · exact h

omit hash_inj

/-! ### Keys that are either subscribed to or touched -/

/-- No touch of a key that was subscribed to is on record. -/
def Untouched (s : SubscriptionState Digest Args) : Prop :=
  ∀ interpKey ∈ s.subscribed, s.lastTouch.find? interpKey = none

omit [DecidableEq Digest] in
theorem Untouched.spares (h : s.Untouched) (e : SubscriptionEvent Digest Args) : s.Spares e := by
  cases e with
  | expired =>
    intro expiredKey rest expiry idle subscribed
    simp [stillIdle, h expiredKey subscribed] at idle
  | _ => trivial

theorem Untouched.step (h : s.Untouched) {e : SubscriptionEvent Digest Args}
    (separate : s.Separate e) : (s.step H me e).Untouched := by
  cases e with
  | subscribe interpKey opened =>
    rw [SubscriptionState.step]
    split
    · intro other mem
      rcases List.mem_cons.1 mem with rfl | old
      · exact separate
      · exact h other old
    · exact h
  | unsubscribe interpKey => exact fun other mem => h other (List.mem_filter.1 mem).1
  | touchSubscription interpKey grace opened =>
    rw [SubscriptionState.step]
    split
    · intro other mem
      have different : interpKey ≠ other := fun same => separate (same ▸ mem)
      exact (Table.find?_upsert ..).trans ((if_neg different).trans (h other mem))
    · exact h
  | other e => exact h
  | pass nanos => exact h
  | timerFires i =>
    simp only [SubscriptionState.step]
    split
    · split <;> exact h
    · exact h
  | expired =>
    simp only [SubscriptionState.step]
    split
    · exact h
    · next expiredKey rest expiry =>
      split
      · intro other mem
        rw [Table.find?_erase]
        split_ifs
        · rfl
        · exact h other mem
      · exact h

end SubscriptionState

/-! ## Runs -/

variable [DecidableEq Digest] {H : Hashes Digest Args} (hash_inj : Function.Injective H.hash)
  (me : Bytes32) (node : Node Digest Args) (es : List (SubscriptionEvent Digest Args))

include hash_inj

/-- Every key that was subscribed to stays open until it is unsubscribed, exactly if no key is
idle and subscribed to when its expiry is handled. -/
theorem staysOpen_iff
    (run : Along (SubscriptionState.step H me) (fun _ e => e.Plain) (.fresh node) es) :
    Always (SubscriptionState.step H me) (SubscriptionState.StaysOpen H) (.fresh node) es ↔
      Along (SubscriptionState.step H me) SubscriptionState.Spares (.fresh node) es := by
  have start : (SubscriptionState.fresh node).StaysOpen H :=
    fun interpKey mem => absurd mem List.not_mem_nil
  have keep : ∀ (s : SubscriptionState Digest Args) (e : SubscriptionEvent Digest Args),
      True → e.Plain → True := fun _ _ _ _ => trivial
  rw [Along.always_iff keep (fun s e _ plain stays => stays.step_iff hash_inj plain) trivial run]
  exact and_iff_right start

/-- In a run in which each key is either subscribed to or touched, all stay open. -/
theorem staysOpen_of_separate
    (run : Along (SubscriptionState.step H me) (fun s e => e.Plain ∧ s.Separate e) (.fresh node)
      es) :
    Always (SubscriptionState.step H me) (SubscriptionState.StaysOpen H) (.fresh node) es := by
  have start : (SubscriptionState.fresh node).Untouched :=
    fun interpKey mem => absurd mem List.not_mem_nil
  have keep : ∀ (s : SubscriptionState Digest Args) e, s.Untouched → e.Plain ∧ s.Separate e →
      (s.step H me e).Untouched := fun s e h ok => h.step ok.2
  refine (staysOpen_iff hash_inj me node es ?_).2 ?_
  · exact Along.of_invariant keep (fun s e _ ok => ok.1) start run
  · exact Along.of_invariant keep (fun s e h _ => h.spares e) start run

omit hash_inj

/-- The key a is subscribed to, and the touch of the key b expires. -/
theorem staysOpen_other_expires :
    Always (SubscriptionState.step symbolicHashes (Vector.replicate 32 1))
      (SubscriptionState.StaysOpen symbolicHashes)
      (.fresh (Node.spawn symbolicHashes (Vector.replicate 32 1) LogStore.empty ()))
      [.touchSubscription "b" 5 true, .subscribe "a" true, .pass 5, .timerFires 0, .expired] := by
  refine (staysOpen_iff Function.injective_id _ _ _ ?_).2 ?_
  · exact ⟨trivial, trivial, trivial, trivial, trivial, trivial⟩
  · refine ⟨trivial, trivial, trivial, trivial, ?_, trivial⟩
    rintro _ _ ⟨⟩ - subscribed
    exact absurd (List.mem_singleton.1 subscribed) (by decide)

/-- A key is touched and then subscribed to, and the expiry of the touch closes its topic. -/
theorem expiry_closes_subscribed :
    Function.Injective symbolicHashes.hash ∧
      ¬ Always (SubscriptionState.step symbolicHashes (Vector.replicate 32 1))
        (SubscriptionState.StaysOpen symbolicHashes)
        (.fresh (Node.spawn symbolicHashes (Vector.replicate 32 1) LogStore.empty ()))
        [.touchSubscription "a" 5 true, .subscribe "a" true, .pass 5, .timerFires 0, .expired] := by
  refine ⟨Function.injective_id, fun stays => ?_⟩
  have open_ := stays.last "a" (List.mem_singleton.2 rfl)
  exact (SubscriptionState.mem_handles_unsubscribe Function.injective_id).1 open_ |>.2 rfl

end Zodia.Sdk
