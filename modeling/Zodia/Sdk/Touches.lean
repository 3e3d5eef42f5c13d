import Zodia.Sdk.Subscriptions

/-!
# How long a touch keeps a key

Each touch of a key starts a timer of its own, and the timers of earlier touches keep firing. A
record beside the client says which touch started which timer, so that the expiry of the last
touch can be told from the others.

## Main definitions

* `TouchLog` — the touches of one key, and what is left of their timers.
* `Watched` — a client with the record of one key.
* `Watched.InTime`, `Watched.Kept` — no expiry drops the key too early, so it is open until its
  grace is over.
* `Watched.Awaited`, `Watched.Released` — the expiry of the last touch is still to come, and leaves
  the key dropped.

## Main results

* `touch_keeps_for_grace` — all hold in every run that does not subscribe to the key.
-/

namespace Zodia.Sdk

open Lib Sync

variable {Digest Args : Type}

/-- The successful touches of a key: their number, the last one, which of them started the timers
and the expiries in the queue (`none` for other keys), whether the expiry of the last one was
handled, and whether publishing a document operation has opened the topic since. -/
structure TouchLog where
  touches : ℕ
  last : Option Touch
  timers : List (Option ℕ)
  expiry : List (Option ℕ)
  handled : Bool
  reopened : Bool

/-- A client and the record of one key. -/
structure Watched (Digest Args : Type) where
  state : SubscriptionState Digest Args
  log : TouchLog

/-- Neither `Subscribe` nor `Unsubscribe` is called for the key, and the client runs on. -/
def SubscriptionEvent.LeavesAlone (interpKey : String) : SubscriptionEvent Digest Args → Prop
  | .subscribe key _ => key ≠ interpKey
  | .unsubscribe key => key ≠ interpKey
  | .other e =>
    e ≠ .subscribe interpKey ∧ e ≠ .unsubscribe interpKey ∧ ∀ keyBundle, e ≠ .restart keyBundle
  | _ => True

namespace Watched

section Model

variable [DecidableEq Digest] (H : Hashes Digest Args) (me : Bytes32) (interpKey : String)
  (w : Watched Digest Args)

/-- A client whose node has just started. -/
def fresh (node : Node Digest Args) : Watched Digest Args :=
  ⟨.fresh node, ⟨0, none, [], [], false, false⟩⟩

/-- How the record goes on. -/
def record : SubscriptionEvent Digest Args → TouchLog
  | .touchSubscription key grace opened =>
    if w.state.subscribes H key opened then
      if key = interpKey then
        { w.log with
          touches := w.log.touches + 1
          last := some ⟨key, w.state.now, grace⟩
          timers := w.log.timers ++ [some (w.log.touches + 1)]
          handled := false
          reopened := false }
      else { w.log with timers := w.log.timers ++ [none] }
    else w.log
  | .other (.publishDoc key _ _) =>
    { w.log with
      reopened := w.log.reopened ||
        decide (key = interpKey ∧ topicKeyForInterp H key ∉ w.state.node.handles) }
  | .timerFires i =>
    match w.state.timers[i]? with
    | some (_, due) =>
      if due ≤ w.state.now then
        { w.log with
          timers := w.log.timers.eraseIdx i
          expiry := w.log.expiry ++ [w.log.timers[i]?.join] }
      else w.log
    | none => w.log
  | .expired =>
    match w.log.expiry with
    | [] => w.log
    | touch :: rest =>
      { w.log with
        expiry := rest
        handled := w.log.handled || decide (touch = some w.log.touches) }
  | _ => w.log

def step (e : SubscriptionEvent Digest Args) : Watched Digest Args :=
  ⟨w.state.step H me e, w.record H interpKey e⟩

omit [DecidableEq Digest] in
/-- The topic of the key is open. -/
def Open : Prop := topicKeyForInterp H interpKey ∈ w.state.node.handles

/-- An expiry that drops the key comes no earlier than the grace after the last touch. -/
def InTime (e : SubscriptionEvent Digest Args) : Prop :=
  e = .expired → w.Open H interpKey → ¬ (w.step H me interpKey e).Open H interpKey →
    ∃ touch ∈ w.log.last, touch.touchedAt + touch.grace ≤ w.state.now

omit [DecidableEq Digest] in
/-- Until the grace of the last touch is over the topic is open. -/
def Kept : Prop :=
  ∀ touch ∈ w.log.last, w.state.now < touch.touchedAt + touch.grace → w.Open H interpKey

omit [DecidableEq Digest] in
/-- Once the expiry of the last touch was handled, the topic is not open, unless publishing a
document operation of the key has opened it again. -/
def Released : Prop := w.log.handled → ¬ w.log.reopened → ¬ w.Open H interpKey

end Model

/-- The last touch has a timer that is due when its grace is over, or an expiry in the queue. -/
inductive Pending (interpKey : String) (w : Watched Digest Args) : Prop
  | timer (i : ℕ) (touch : Touch) (last : w.log.last = some touch)
    (runs : w.state.timers[i]? = some (interpKey, touch.touchedAt + touch.grace))
    (own : w.log.timers[i]? = some (some w.log.touches))
  | expiry (i : ℕ) (queued : w.state.expiry[i]? = some interpKey)
    (own : w.log.expiry[i]? = some (some w.log.touches))

/-- After a touch the timer or the expiry of the last one is pending, until its expiry was
handled. -/
def Awaited (interpKey : String) (w : Watched Digest Args) : Prop :=
  w.log.last.isSome → w.log.handled = false → w.Pending interpKey

/-! ## The invariant -/

/-- A timer or an expiry of the key `key` that was started by `touch`: the last touch's is over no
earlier than its grace. -/
def Owned (interpKey : String) (log : TouchLog) (key : String) (touch : Option ℕ) (time : ℕ) :
    Prop :=
  ∀ n, touch = some n → key = interpKey ∧ n ≤ log.touches ∧
    (n = log.touches → ∃ last ∈ log.last, last.touchedAt + last.grace ≤ time)

/-- How the client and the record agree. -/
structure Tracks (H : Hashes Digest Args) (interpKey : String) (w : Watched Digest Args) : Prop
    where
  timers : List.Forall₂ (fun timer touch => Owned interpKey w.log timer.1 touch timer.2)
    w.state.timers w.log.timers
  expiry : List.Forall₂ (fun key touch => Owned interpKey w.log key touch w.state.now)
    w.state.expiry w.log.expiry
  onRecord : ∀ touch ∈ w.state.lastTouch.find? interpKey, w.log.last = some touch
  started : ∀ touch ∈ w.log.last, touch.touchedAt ≤ w.state.now
  dropped : w.state.lastTouch.find? interpKey = none → w.log.last.isSome → ¬ w.log.reopened →
    ¬ w.Open H interpKey
  handled : w.log.handled → w.state.lastTouch.find? interpKey = none ∧ w.log.last.isSome

section Timers

variable {interpKey : String} {log : TouchLog} {key : String} {touch : Option ℕ} {time : ℕ}

theorem Owned.mono (h : Owned interpKey log key touch time) {later : ℕ} (le : time ≤ later) :
    Owned interpKey log key touch later := by
  intro n started
  obtain ⟨same, known, own⟩ := h n started
  refine ⟨same, known, fun newest => ?_⟩
  obtain ⟨last, mem, past⟩ := own newest
  exact ⟨last, mem, past.trans le⟩

/-- After another touch, the timers there are belong to earlier ones. -/
theorem Owned.touched (h : Owned interpKey log key touch time) {log' : TouchLog}
    (more : log'.touches = log.touches + 1) : Owned interpKey log' key touch time := by
  intro n started
  obtain ⟨same, known, -⟩ := h n started
  exact ⟨same, by omega, fun newest => by omega⟩

end Timers

theorem forall₂_eraseIdx {α β : Type*} {R : α → β → Prop} {l : List α} {l' : List β}
    (h : List.Forall₂ R l l') (i : ℕ) : List.Forall₂ R (l.eraseIdx i) (l'.eraseIdx i) := by
  induction h generalizing i with
  | nil => exact .nil
  | cons first rest ih =>
    cases i with
    | zero => exact rest
    | succ i => exact .cons first (ih i)

theorem forall₂_getElem? {α β : Type*} {R : α → β → Prop} {l : List α} {l' : List β}
    (h : List.Forall₂ R l l') {i : ℕ} {a : α} (found : l[i]? = some a) :
    ∃ b, l'[i]? = some b ∧ R a b := by
  induction h generalizing i with
  | nil => cases found
  | cons first rest ih =>
    cases i with
    | zero =>
      cases found
      exact ⟨_, rfl, first⟩
    | succ i => exact ih found

/-! ## Steps -/

variable [DecidableEq Digest] {H : Hashes Digest Args} {me : Bytes32} {interpKey : String}
  {w : Watched Digest Args}

section Nodes

variable (hash_inj : Function.Injective H.hash) {nd : Node Digest Args}
  (closed : topicKeyForInterp H interpKey ∉ nd.handles)

include hash_inj closed

theorem closed_openTopic {name : TopicName} (other : name ≠ .interp interpKey) (logId : UInt64) :
    topicKeyForInterp H interpKey ∉ (nd.openTopic (name.topic H) logId).handles := by
  rw [mem_handles_openTopic]
  rintro (same | open_)
  · have same : (TopicName.interp interpKey).topic H = name.topic H := same
    exact other (TopicName.topic_injective hash_inj same).symm
  · exact closed open_

theorem closed_subscribe {key : String} (other : key ≠ interpKey) :
    topicKeyForInterp H interpKey ∉ (nd.subscribe H key).handles := by
  have different : TopicName.interp key ≠ .interp interpKey := by
    rintro ⟨⟩
    exact other rfl
  exact closed_openTopic hash_inj closed different _

/-- Only subscribing to a key and publishing its document operations open its topic. -/
theorem closed_step {e : NodeEvent Digest Args} (subscribe : e ≠ .subscribe interpKey)
    (publish : ∀ payload now, e ≠ .publishDoc interpKey payload now)
    (stays : ∀ keyBundle, e ≠ .restart keyBundle) :
    topicKeyForInterp H interpKey ∉ (nd.step H me e).handles := by
  have opens : ∀ name : TopicName, name ≠ .interp interpKey → ∀ logId,
      topicKeyForInterp H interpKey ∉ (nd.openTopic (name.topic H) logId).handles :=
    fun _ other logId => closed_openTopic hash_inj closed other logId
  cases e with
  | restart keyBundle => exact absurd rfl (stays keyBundle)
  | subscribe key => exact closed_subscribe hash_inj closed fun same => subscribe (same ▸ rfl)
  | unsubscribe key => exact fun open_ => closed (List.mem_filter.1 open_).1
  | publishDoc key payload now =>
    exact closed_subscribe hash_inj closed fun same => publish payload now (same ▸ rfl)
  | openCircle circleId => exact opens (.circle circleId) TopicName.noConfusion _
  | circleCall circleId forged =>
    exact Node.circleCall_keeps (P := fun nd => topicKeyForInterp H interpKey ∉ nd.handles)
      (opens (.circle circleId) TopicName.noConfusion _) (fun _ _ h => h) (fun _ h => h) forged
  | received t logId op =>
    simp only [Node.step, Node.operationReceived]
    split <;> exact closed
  | _ => exact closed

end Nodes

/-! ### The invariant goes on -/

omit [DecidableEq Digest] in
/-- A step that concerns neither the touches nor the timers. -/
theorem Tracks.of_node (h : w.Tracks H interpKey) {node : Node Digest Args}
    {subscribed : List String} (closed : topicKeyForInterp H interpKey ∉ w.state.node.handles →
      topicKeyForInterp H interpKey ∉ node.handles) :
    Tracks H interpKey ⟨{ w.state with node := node, subscribed := subscribed }, w.log⟩ :=
  { h with dropped := fun none touched fresh => closed (h.dropped none touched fresh) }

/-- A touch of the key puts it on record, and its timer is the newest. -/
theorem Tracks.touch (h : w.Tracks H interpKey) {grace : ℕ} {opened : Bool}
    (succeeds : w.state.subscribes H interpKey opened) :
    (w.step H me interpKey (.touchSubscription interpKey grace opened)).Tracks H interpKey := by
  simp only [step, record, SubscriptionState.step, succeeds, if_true]
  have found : (w.state.lastTouch.upsert ⟨interpKey, w.state.now, grace⟩).find? interpKey =
      some ⟨interpKey, w.state.now, grace⟩ := (Table.find?_upsert ..).trans (if_pos rfl)
  constructor
  · refine List.rel_append ?_ (.cons ?_ .nil)
    · exact h.timers.imp fun _ _ owned => owned.touched rfl
    · rintro n ⟨⟩
      exact ⟨rfl, le_rfl, fun _ => ⟨_, rfl, le_rfl⟩⟩
  · exact h.expiry.imp fun _ _ owned => owned.touched rfl
  · intro touch mem
    exact found.symm.trans mem
  · rintro touch ⟨⟩
    exact le_rfl
  · intro none
    rw [found] at none
    cases none
  · exact fun handled => absurd handled Bool.false_ne_true

/-- A touch of another key. -/
theorem Tracks.touch_other (hash_inj : Function.Injective H.hash) (h : w.Tracks H interpKey)
    {key : String} (other : key ≠ interpKey) {grace : ℕ} {opened : Bool}
    (succeeds : w.state.subscribes H key opened) :
    (w.step H me interpKey (.touchSubscription key grace opened)).Tracks H interpKey := by
  simp only [step, record, SubscriptionState.step, succeeds, if_true, if_neg other]
  have found : (w.state.lastTouch.upsert ⟨key, w.state.now, grace⟩).find? interpKey =
      w.state.lastTouch.find? interpKey := (Table.find?_upsert ..).trans (if_neg other)
  constructor
  · refine List.rel_append h.timers (.cons ?_ .nil)
    rintro n ⟨⟩
  · exact h.expiry
  · intro touch mem
    exact h.onRecord touch (found.symm.trans mem)
  · exact h.started
  · intro none touched fresh
    exact closed_subscribe hash_inj (h.dropped (found.symm.trans none) touched fresh) other
  · exact fun handled => ⟨found.trans (h.handled handled).1, (h.handled handled).2⟩

theorem Tracks.pass (h : w.Tracks H interpKey) (nanos : ℕ) :
    (w.step H me interpKey (.pass nanos)).Tracks H interpKey :=
  { h with
    expiry := h.expiry.imp fun _ _ owned => owned.mono (Nat.le_add_right ..)
    started := fun touch mem => (h.started touch mem).trans (Nat.le_add_right ..) }

/-- A timer that fires is over, and its expiry is queued. -/
theorem Tracks.timerFires (h : w.Tracks H interpKey) (i : ℕ) :
    (w.step H me interpKey (.timerFires i)).Tracks H interpKey := by
  simp only [step, record, SubscriptionState.step]
  cases found : w.state.timers[i]? with
  | none => exact h
  | some timer =>
    obtain ⟨key, due⟩ := timer
    obtain ⟨touch, found', owned⟩ := forall₂_getElem? h.timers found
    by_cases fires : due ≤ w.state.now
    · simp only [if_pos fires, found', Option.join_some]
      exact { h with
        timers := forall₂_eraseIdx h.timers i
        expiry := List.rel_append h.expiry (.cons (owned.mono fires) .nil) }
    · simp only [if_neg fires]
      exact h

omit [DecidableEq Digest] in
/-- The key is idle exactly if its last touch is on record and its grace is over. -/
theorem Tracks.stillIdle_iff (h : w.Tracks H interpKey) :
    w.state.stillIdle interpKey = true ↔ w.state.lastTouch.find? interpKey ≠ none ∧
      ∃ touch ∈ w.log.last, touch.touchedAt + touch.grace ≤ w.state.now := by
  rw [SubscriptionState.stillIdle, Option.any_eq_true]
  constructor
  · rintro ⟨touch, found, idle⟩
    have last := h.onRecord touch found
    have started := h.started touch last
    have idle : touch.grace ≤ w.state.now - touch.touchedAt := of_decide_eq_true idle
    exact ⟨Option.ne_none_iff_exists'.2 ⟨touch, found⟩, touch, last, by omega⟩
  · rintro ⟨some, touch, last, past⟩
    obtain ⟨touch', found⟩ := Option.ne_none_iff_exists'.1 some
    obtain rfl : touch' = touch := Option.some.inj ((h.onRecord touch' found).symm.trans last)
    exact ⟨touch', found, decide_eq_true (by omega)⟩

section Expired

variable {key : String} {rest : List String} {touch : Option ℕ} {rest' : List (Option ℕ)}
  (queue : List.Forall₂ (fun key touch => Owned interpKey w.log key touch w.state.now) rest rest')
  (own : touch = some w.log.touches →
    key = interpKey ∧ ∃ last ∈ w.log.last, last.touchedAt + last.grace ≤ w.state.now)

include queue own

omit [DecidableEq Digest] in
/-- The expiry of a busy key changes nothing. If the key is past the grace of its last touch, an
earlier expiry has dropped its record. -/
theorem Tracks.expired_busy (h : w.Tracks H interpKey) (busy : w.state.stillIdle key = false) :
    Tracks H interpKey ⟨{ w.state with expiry := rest },
      { w.log with
        expiry := rest'
        handled := w.log.handled || decide (touch = some w.log.touches) }⟩ := by
  refine { h with expiry := queue, handled := fun handled => ?_ }
  rcases Bool.or_eq_true_iff.1 handled with earlier | newest
  · exact h.handled earlier
  · obtain ⟨rfl, touch, last, past⟩ := own (of_decide_eq_true newest)
    refine ⟨?_, Option.isSome_iff_exists.2 ⟨touch, last⟩⟩
    by_contra recorded
    rw [h.stillIdle_iff.2 ⟨recorded, touch, last, past⟩] at busy
    cases busy

omit own in
/-- The expiry of the key drops its record and closes its topic. -/
theorem Tracks.expired_self (hash_inj : Function.Injective H.hash) (h : w.Tracks H interpKey)
    (idle : w.state.stillIdle interpKey = true) (handled : Bool) :
    Tracks H interpKey ⟨{ w.state with
        node := w.state.node.unsubscribe H interpKey
        lastTouch := w.state.lastTouch.erase interpKey
        expiry := rest },
      { w.log with expiry := rest', handled := handled }⟩ := by
  have erased : (w.state.lastTouch.erase interpKey).find? interpKey = none :=
    (Table.find?_erase ..).trans (if_pos rfl)
  obtain ⟨touch, last, -⟩ := (h.stillIdle_iff.1 idle).2
  constructor
  · exact h.timers
  · exact queue
  · intro touch found
    rw [erased] at found
    cases found
  · exact h.started
  · intro _ _ _ open_
    exact ((SubscriptionState.mem_handles_unsubscribe hash_inj).1 open_).2 rfl
  · exact fun _ => ⟨erased, Option.isSome_iff_exists.2 ⟨touch, last⟩⟩

/-- The expiry of another key. -/
theorem Tracks.expired_other (h : w.Tracks H interpKey) (other : key ≠ interpKey) :
    Tracks H interpKey ⟨{ w.state with
        node := w.state.node.unsubscribe H key
        lastTouch := w.state.lastTouch.erase key
        expiry := rest },
      { w.log with
        expiry := rest'
        handled := w.log.handled || decide (touch = some w.log.touches) }⟩ := by
  have kept : (w.state.lastTouch.erase key).find? interpKey =
      w.state.lastTouch.find? interpKey := (Table.find?_erase ..).trans (if_neg other)
  constructor
  · exact h.timers
  · exact queue
  · intro touch found
    exact h.onRecord touch (kept.symm.trans found)
  · exact h.started
  · intro none touched fresh open_
    exact h.dropped (kept.symm.trans none) touched fresh (List.mem_filter.1 open_).1
  · intro handled
    rcases Bool.or_eq_true_iff.1 handled with earlier | newest
    · exact ⟨kept.trans (h.handled earlier).1, (h.handled earlier).2⟩
    · exact absurd (own (of_decide_eq_true newest)).1 other

end Expired

theorem Tracks.expired (hash_inj : Function.Injective H.hash) (h : w.Tracks H interpKey) :
    (w.step H me interpKey .expired).Tracks H interpKey := by
  simp only [step, record, SubscriptionState.step]
  have queue := h.expiry
  cases expiry : w.state.expiry with
  | nil =>
    rw [expiry, List.forall₂_nil_left_iff] at queue
    simp only [queue]
    exact h
  | cons key rest =>
    rw [expiry, List.forall₂_cons_left_iff] at queue
    obtain ⟨touch, rest', owned, queue, expiry'⟩ := queue
    have own : touch = some w.log.touches → key = interpKey ∧
        ∃ last ∈ w.log.last, last.touchedAt + last.grace ≤ w.state.now := by
      intro newest
      obtain ⟨same, -, last⟩ := owned _ newest
      exact ⟨same, last rfl⟩
    simp only [expiry']
    split
    · next idle =>
      by_cases same : key = interpKey
      · subst same
        exact h.expired_self queue hash_inj idle _
      · exact h.expired_other queue own same
    · next busy => exact h.expired_busy queue own (Bool.eq_false_iff.2 busy)

theorem Tracks.step (hash_inj : Function.Injective H.hash) (h : w.Tracks H interpKey)
    {e : SubscriptionEvent Digest Args} (alone : e.LeavesAlone interpKey) :
    (w.step H me interpKey e).Tracks H interpKey := by
  cases e with
  | pass nanos => exact h.pass nanos
  | timerFires i => exact h.timerFires i
  | expired => exact h.expired hash_inj
  | unsubscribe key => exact h.of_node fun closed open_ => closed (List.mem_filter.1 open_).1
  | subscribe key opened =>
    simp only [Watched.step, record, SubscriptionState.step]
    split
    · exact h.of_node fun closed => closed_subscribe hash_inj closed alone
    · exact h
  | touchSubscription key grace opened =>
    by_cases succeeds : w.state.subscribes H key opened = true
    · by_cases same : key = interpKey
      · subst same
        exact h.touch succeeds
      · exact h.touch_other hash_inj same succeeds
    · simp only [Watched.step, record, SubscriptionState.step, if_neg succeeds]
      exact h
  | other e =>
    obtain ⟨subscribe, -, stays⟩ := alone
    cases e with
    | publishDoc key payload now =>
      refine { h with dropped := fun none touched fresh => ?_ }
      obtain ⟨before, opens⟩ := not_or.1 (mt Bool.or_eq_true_iff.2 fresh)
      have closed := h.dropped none touched before
      refine closed_subscribe hash_inj closed fun same => opens ?_
      exact decide_eq_true ⟨same, same ▸ closed⟩
    | _ =>
      exact h.of_node fun closed =>
        closed_step hash_inj closed subscribe (by simp) stays

/-! ### What keeps the key open -/

/-- The record of a touch outlasts its grace, a key on record is open, and the expiry of the last
touch is still to come. -/
structure Tended (H : Hashes Digest Args) (interpKey : String) (w : Watched Digest Args) : Prop
    where
  recorded : w.state.lastTouch.find? interpKey ≠ none → w.Open H interpKey
  recent : ∀ touch ∈ w.log.last, w.state.now < touch.touchedAt + touch.grace →
    w.state.lastTouch.find? interpKey ≠ none
  awaited : w.Awaited interpKey

omit [DecidableEq Digest] in
theorem Tended.kept (h : w.Tended H interpKey) : w.Kept H interpKey :=
  fun touch last within => h.recorded (h.recent touch last within)

theorem getElem?_of_isPrefix {α : Type*} {l l' : List α} (start : l <+: l') {i : ℕ} {a : α}
    (found : l[i]? = some a) : l'[i]? = some a := by
  obtain ⟨rest, rfl⟩ := start
  rw [List.getElem?_append_left (List.getElem?_eq_some_iff.1 found).1, found]

/-- Where an element is after another one was erased. -/
theorem getElem?_eraseIdx_of_ne {α : Type*} {l : List α} {i j : ℕ} (ne : j ≠ i) :
    (l.eraseIdx i)[if j < i then j else j - 1]? = l[j]? := by
  rw [List.getElem?_eraseIdx]
  split_ifs with before
  · rfl
  · omega
  · congr 1
    omega

omit [DecidableEq Digest] in
/-- Other timers and expiries may join those there are. -/
theorem Pending.of_isPrefix {w' : Watched Digest Args} (h : w.Pending interpKey)
    (last : w'.log.last = w.log.last) (touches : w'.log.touches = w.log.touches)
    (runs : w.state.timers <+: w'.state.timers) (own : w.log.timers <+: w'.log.timers)
    (queued : w.state.expiry <+: w'.state.expiry) (own' : w.log.expiry <+: w'.log.expiry) :
    w'.Pending interpKey := by
  cases h with
  | timer i touch found at_ mine =>
    exact .timer i touch (last.trans found) (getElem?_of_isPrefix runs at_)
      (touches ▸ getElem?_of_isPrefix own mine)
  | expiry i at_ mine =>
    exact .expiry i (getElem?_of_isPrefix queued at_) (touches ▸ getElem?_of_isPrefix own' mine)

omit [DecidableEq Digest] in
/-- A step that concerns neither the touches nor the timers. -/
theorem Tended.of_node (h : w.Tended H interpKey) {node : Node Digest Args}
    {subscribed : List String} {log : TouchLog} (last : log.last = w.log.last)
    (touches : log.touches = w.log.touches) (handled : log.handled = w.log.handled)
    (timers : log.timers = w.log.timers) (expiry : log.expiry = w.log.expiry)
    (stays : w.Open H interpKey → topicKeyForInterp H interpKey ∈ node.handles) :
    Tended H interpKey ⟨{ w.state with node := node, subscribed := subscribed }, log⟩ where
  recorded some := stays (h.recorded some)
  recent touch mem := h.recent touch (last ▸ mem)
  awaited touched open_ := (h.awaited (last ▸ touched) (handled ▸ open_)).of_isPrefix last touches
    List.prefix_rfl (timers ▸ List.prefix_rfl) List.prefix_rfl (expiry ▸ List.prefix_rfl)

/-- A touch opens the topic, and its timer is the newest. -/
theorem Tended.touch (tracks : w.Tracks H interpKey) {grace : ℕ} {opened : Bool}
    (succeeds : w.state.subscribes H interpKey opened) :
    (w.step H me interpKey (.touchSubscription interpKey grace opened)).Tended H interpKey := by
  simp only [step, record, SubscriptionState.step, succeeds, if_true]
  have found : (w.state.lastTouch.upsert ⟨interpKey, w.state.now, grace⟩).find? interpKey =
      some ⟨interpKey, w.state.now, grace⟩ := (Table.find?_upsert ..).trans (if_pos rfl)
  have newest := tracks.timers.length_eq
  refine ⟨fun _ => mem_handles_openTopic.2 (.inl rfl), fun _ _ _ none => ?_, fun _ _ => ?_⟩
  · rw [found] at none
    cases none
  · exact .timer w.state.timers.length _ rfl List.getElem?_concat_length
      (newest ▸ List.getElem?_concat_length)

theorem Tended.touch_other (h : w.Tended H interpKey) {key : String} (other : key ≠ interpKey)
    {grace : ℕ} {opened : Bool} (succeeds : w.state.subscribes H key opened) :
    (w.step H me interpKey (.touchSubscription key grace opened)).Tended H interpKey := by
  simp only [step, record, SubscriptionState.step, succeeds, if_true, if_neg other]
  have found : (w.state.lastTouch.upsert ⟨key, w.state.now, grace⟩).find? interpKey =
      w.state.lastTouch.find? interpKey := (Table.find?_upsert ..).trans (if_neg other)
  constructor
  · intro some
    exact SubscriptionState.subset_subscribe key (h.recorded (found ▸ some))
  · intro touch last within
    exact found.symm ▸ h.recent touch last within
  · intro touched open_
    exact (h.awaited touched open_).of_isPrefix rfl rfl (List.prefix_append ..)
      (List.prefix_append ..) List.prefix_rfl List.prefix_rfl

/-- A timer that fires is no longer awaited, but its expiry is. -/
theorem Tended.timerFires (tracks : w.Tracks H interpKey) (h : w.Tended H interpKey) (i : ℕ) :
    (w.step H me interpKey (.timerFires i)).Tended H interpKey := by
  simp only [step, record, SubscriptionState.step]
  cases found : w.state.timers[i]? with
  | none => exact h
  | some timer =>
    obtain ⟨key, due⟩ := timer
    obtain ⟨owner, found', -⟩ := forall₂_getElem? tracks.timers found
    by_cases fires : due ≤ w.state.now
    · simp only [if_pos fires, found', Option.join_some]
      refine { h with awaited := fun touched open_ => ?_ }
      cases h.awaited touched open_ with
      | timer j touch last runs own =>
        by_cases same : j = i
        · -- it is the one that fires
          subst same
          obtain ⟨rfl, -⟩ := Prod.mk.inj (Option.some.inj (found.symm.trans runs))
          obtain rfl := Option.some.inj (found'.symm.trans own)
          exact .expiry w.state.expiry.length List.getElem?_concat_length
            (tracks.expiry.length_eq ▸ List.getElem?_concat_length)
        · exact .timer _ touch last ((getElem?_eraseIdx_of_ne same).trans runs)
            ((getElem?_eraseIdx_of_ne same).trans own)
      | expiry j queued own =>
        exact .expiry j (getElem?_of_isPrefix (List.prefix_append ..) queued)
          (getElem?_of_isPrefix (List.prefix_append ..) own)
    · simp only [if_neg fires]
      exact h

/-- An expiry drops the key only if its grace is over, and the last one is then handled. -/
theorem Tended.expired (hash_inj : Function.Injective H.hash) (tracks : w.Tracks H interpKey)
    (h : w.Tended H interpKey) : (w.step H me interpKey .expired).Tended H interpKey := by
  simp only [step, record, SubscriptionState.step]
  have queue := tracks.expiry
  cases expiry : w.state.expiry with
  | nil =>
    rw [expiry, List.forall₂_nil_left_iff] at queue
    simp only [queue]
    exact h
  | cons key rest =>
    rw [expiry, List.forall₂_cons_left_iff] at queue
    obtain ⟨owner, rest', -, -, expiry'⟩ := queue
    simp only [expiry']
    -- an expiry of an earlier touch leaves the last one where it is
    have awaited : ∀ s : SubscriptionState Digest Args, s.timers = w.state.timers →
        s.expiry = rest → Awaited interpKey ⟨s, { w.log with
          expiry := rest'
          handled := w.log.handled || decide (owner = some w.log.touches) }⟩ := by
      intro s timers left touched open_
      obtain ⟨before, another⟩ := Bool.or_eq_false_iff.1 open_
      cases h.awaited touched before with
      | timer i touch last runs own => exact .timer i touch last (timers ▸ runs) own
      | expiry i queued own =>
        cases i with
        | zero =>
          rw [expiry', List.getElem?_cons_zero] at own
          exact absurd (Option.some.inj own) (of_decide_eq_false another)
        | succ i =>
          rw [expiry, List.getElem?_cons_succ] at queued
          rw [expiry', List.getElem?_cons_succ] at own
          exact .expiry i (left ▸ queued) own
    split
    · next idle =>
      by_cases same : key = interpKey
      · subst same
        obtain ⟨-, touch, last, past⟩ := tracks.stillIdle_iff.1 idle
        have erased : (w.state.lastTouch.erase key).find? key = none :=
          (Table.find?_erase ..).trans (if_pos rfl)
        refine ⟨fun some => absurd erased some, fun touch' last' within => ?_, awaited _ rfl rfl⟩
        obtain rfl : touch' = touch := Option.some.inj (last'.symm.trans last)
        exact absurd past (Nat.not_le.2 within)
      · have kept : (w.state.lastTouch.erase key).find? interpKey =
            w.state.lastTouch.find? interpKey := (Table.find?_erase ..).trans (if_neg same)
        refine ⟨fun some => ?_, fun touch last within => ?_, awaited _ rfl rfl⟩
        · exact (SubscriptionState.mem_handles_unsubscribe hash_inj).2
            ⟨h.recorded (kept ▸ some), fun eq => same eq.symm⟩
        · exact kept.symm ▸ h.recent touch last within
    · exact ⟨h.recorded, h.recent, awaited _ rfl rfl⟩

/-- Only unsubscribing from a key and starting anew close its topic. -/
theorem open_step (hash_inj : Function.Injective H.hash) {nd : Node Digest Args}
    (open_ : topicKeyForInterp H interpKey ∈ nd.handles) {e : NodeEvent Digest Args}
    (unsubscribe : e ≠ .unsubscribe interpKey) (stays : ∀ keyBundle, e ≠ .restart keyBundle) :
    topicKeyForInterp H interpKey ∈ (nd.step H me e).handles := by
  cases e with
  | unsubscribe key =>
    refine (SubscriptionState.mem_handles_unsubscribe hash_inj).2 ⟨open_, fun same => ?_⟩
    exact unsubscribe (same ▸ rfl)
  | _ => exact mem_handles_step open_ (by simp) stays

theorem Tended.step (hash_inj : Function.Injective H.hash) (tracks : w.Tracks H interpKey)
    (h : w.Tended H interpKey) {e : SubscriptionEvent Digest Args}
    (alone : e.LeavesAlone interpKey) : (w.step H me interpKey e).Tended H interpKey := by
  cases e with
  | pass nanos =>
    refine ⟨h.recorded, fun touch last within => h.recent touch last ?_, fun touched open_ => ?_⟩
    · exact (Nat.le_add_right ..).trans_lt within
    · exact (h.awaited touched open_).of_isPrefix rfl rfl List.prefix_rfl List.prefix_rfl
        List.prefix_rfl List.prefix_rfl
  | timerFires i => exact h.timerFires tracks i
  | expired => exact h.expired hash_inj tracks
  | unsubscribe key =>
    exact h.of_node rfl rfl rfl rfl rfl fun open_ =>
      (SubscriptionState.mem_handles_unsubscribe hash_inj).2 ⟨open_, alone.symm⟩
  | subscribe key opened =>
    simp only [Watched.step, record, SubscriptionState.step]
    split
    · exact h.of_node rfl rfl rfl rfl rfl fun open_ => SubscriptionState.subset_subscribe key open_
    · exact h
  | touchSubscription key grace opened =>
    by_cases succeeds : w.state.subscribes H key opened = true
    · by_cases same : key = interpKey
      · subst same
        exact .touch tracks succeeds
      · exact h.touch_other same succeeds
    · simp only [Watched.step, record, SubscriptionState.step, if_neg succeeds]
      exact h
  | other e =>
    obtain ⟨-, unsubscribe, stays⟩ := alone
    have open_ : w.Open H interpKey →
        topicKeyForInterp H interpKey ∈ (w.state.node.step H me e).handles :=
      fun before => open_step hash_inj before unsubscribe stays
    cases e <;> exact h.of_node rfl rfl rfl rfl rfl open_

/-! ### What they grant -/

omit [DecidableEq Digest] in
theorem Tracks.released (h : w.Tracks H interpKey) : w.Released H interpKey :=
  fun handled => h.dropped (h.handled handled).1 (h.handled handled).2

/-- Only the expiry of an idle key closes its topic. -/
theorem Tracks.inTime (hash_inj : Function.Injective H.hash) (h : w.Tracks H interpKey)
    (e : SubscriptionEvent Digest Args) : w.InTime H me interpKey e := by
  rintro rfl open_ closed
  suffices w.state.stillIdle interpKey = true from (h.stillIdle_iff.1 this).2
  simp only [Open, Watched.step, SubscriptionState.step] at open_ closed
  cases expiry : w.state.expiry with
  | nil =>
    rw [expiry] at closed
    exact absurd open_ closed
  | cons key rest =>
    simp only [expiry] at closed
    cases idle : w.state.stillIdle key with
    | false =>
      simp only [idle] at closed
      exact absurd open_ closed
    | true =>
      simp only [idle, if_true] at closed
      rw [SubscriptionState.mem_handles_unsubscribe hash_inj] at closed
      obtain rfl : interpKey = key := not_not.1 fun other => closed ⟨open_, other⟩
      exact idle

omit [DecidableEq Digest] in
theorem Tracks.fresh (node : Node Digest Args) : (fresh node).Tracks H interpKey where
  timers := .nil
  expiry := .nil
  onRecord touch found := by cases found
  started touch last := by cases last
  dropped _ touched := by cases touched
  handled handled := by cases handled

omit [DecidableEq Digest] in
theorem Tended.fresh (node : Node Digest Args) : (fresh node).Tended H interpKey where
  recorded some := absurd rfl some
  recent touch last := by cases last
  awaited touched := by cases touched

end Watched

/-! ## Runs -/

section Runs

variable [DecidableEq Digest] {H : Hashes Digest Args} (hash_inj : Function.Injective H.hash)
  (me : Bytes32) (interpKey : String) (node : Node Digest Args)
  {es : List (SubscriptionEvent Digest Args)}

/-- The record does not change what the client does. -/
theorem state_exec (w : Watched Digest Args) (es : List (SubscriptionEvent Digest Args)) :
    (exec (Watched.step H me interpKey) w es).state =
      exec (SubscriptionState.step H me) w.state es := by
  induction es generalizing w with
  | nil => rfl
  | cons e es ih => exact ih _

include hash_inj

/-- **No expiry drops a touched key before the grace of its last touch is over, so the key is
open until then. The expiry of the last touch is still to come until it is handled, and then the
key is not subscribed to.** -/
theorem touch_keeps_for_grace (alone : ∀ e ∈ es, e.LeavesAlone interpKey) :
    Along (Watched.step H me interpKey) (Watched.InTime H me interpKey) (.fresh node) es ∧
      Always (Watched.step H me interpKey) (Watched.Kept H interpKey) (.fresh node) es ∧
      Always (Watched.step H me interpKey) (Watched.Awaited interpKey) (.fresh node) es ∧
      Always (Watched.step H me interpKey) (Watched.Released H interpKey) (.fresh node) es := by
  have keep : ∀ (w : Watched Digest Args) (e : SubscriptionEvent Digest Args),
      w.Tracks H interpKey ∧ w.Tended H interpKey → e.LeavesAlone interpKey →
        (w.step H me interpKey e).Tracks H interpKey ∧
          (w.step H me interpKey e).Tended H interpKey := fun w e h alone =>
    ⟨h.1.step hash_inj alone, h.2.step hash_inj h.1 alone⟩
  have start : (Watched.fresh node).Tracks H interpKey ∧ (Watched.fresh node).Tended H interpKey :=
    ⟨.fresh node, .fresh node⟩
  have run : Along (Watched.step H me interpKey) (fun _ e => e.LeavesAlone interpKey)
      (.fresh node) es := Along.of_forall alone _
  refine ⟨?_, ?_, ?_, ?_⟩
  · exact Along.of_invariant keep (fun w e h _ => h.1.inTime hash_inj e) start run
  · exact Always.of_invariant keep (fun w h => h.2.kept) start run
  · exact Always.of_invariant keep (fun w h => h.2.awaited) start run
  · exact Always.of_invariant keep (fun w h => h.1.released) start run

end Runs

/-- A touch for 5 and, after 1, another one for 3. The key is open at 3. At 4 the timer of the
second touch fires, and its expiry closes the key. -/
theorem touch_keeps_shorter_grace :
    let start : Watched Bytes Unit :=
      .fresh (Node.spawn symbolicHashes (Vector.replicate 32 1) LogStore.empty ())
    let touched : List (SubscriptionEvent Bytes Unit) :=
      [.touchSubscription "a" 5 true, .pass 1, .touchSubscription "a" 3 true, .pass 2]
    (exec (Watched.step symbolicHashes (Vector.replicate 32 1) "a") start touched).Open
        symbolicHashes "a" ∧
      ¬ (exec (Watched.step symbolicHashes (Vector.replicate 32 1) "a") start
        (touched ++ [.pass 1, .timerFires 1, .expired])).Open symbolicHashes "a" := by
  intro start touched
  have hash_inj : Function.Injective symbolicHashes.hash := Function.injective_id
  have alone : ∀ e ∈ touched, e.LeavesAlone "a" := by simp [touched, SubscriptionEvent.LeavesAlone]
  have alone' : ∀ e ∈ touched ++ [.pass 1, .timerFires 1, .expired], e.LeavesAlone "a" := by
    simp [touched, SubscriptionEvent.LeavesAlone]
  constructor
  · exact (touch_keeps_for_grace hash_inj _ "a" _ alone).2.1.last _ rfl (by decide)
  · exact (touch_keeps_for_grace hash_inj _ "a" _ alone').2.2.2.last rfl (by decide)

end Zodia.Sdk
