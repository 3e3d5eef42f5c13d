import Mathlib.Data.Finset.Basic
import Mathlib.Data.Rat.Defs
import Zodia.Store.Feed

/-!
# Live and backfilled feed items

An item of the feed is built twice: from the event, when the store has just written its row,
and from that row, when the feed is filled from the store. The feed drops an item whose id it
has, and the bell counts by the id of the row. The affirmation is named by one hash on both
ways; a text and a response are named by their operation on the first and by their content on
the second.

## Main definitions

* `stateEventToFeedItem`, `feedRowToFeedItem` — the two ways to build an item.
* `syncStateEvent` — what the handler writes, and the live item.
* `FeedView.push`, `FeedView.reset` — how the feed keeps one card for each id.
* `Agrees` — the two items of an event are one card and one read mark.

## Main results

* `FeedView.Deduplicated.run` — in every run of the feed each id has at most one card.
* `live_backfill_agree_iff` — the items agree for affirmations, and else only if the operation
  and the content have one hash.
* `two_cards` — a text that is pushed live and backfilled.
-/

namespace Zodia.App

open Lib Store

variable {Digest Sig Secret VerifyingKey : Type*}

/-! ## Items -/

inductive FeedPayload (Digest : Type*) where
  | interpAuthored (author : Bytes32) (interpKey body : String)
  | affirmAdded (targetLogId : Digest) (targetKey : String) (voter : Bytes32)
  | responseAdded (author : Bytes32) (parentLogId : Digest) (interpKey body : String)
  | transitActive (transitKey : String) (startJdn endJdn orbDeg : ℚ) (baseline : Option String)
  | skyAspectActive (aspectKey : String) (startJdn endJdn orbDeg : ℚ) (baseline : Option String)
  | houseTransitActive (transitKey : String) (startJdn endJdn : ℚ) (baseline : Option String)
  | docEdited (editor : Bytes32) (interpKey : String)
  | blockYouAuthoredWasEdited (editor : Bytes32) (interpKey : String) (editOpId : Digest)
  | docRolledBack (revoker : Bytes32) (interpKey : String)
  | docAffirmed (voter : Bytes32) (interpKey : String)
  | editorPresenceChanged (peer : Bytes32) (interpKey : String) (joined : Bool)
  deriving DecidableEq

structure FeedItem (Digest : Type*) where
  eventId : Digest
  timestamp : ℕ
  targetsMe : Bool
  payload : FeedPayload Digest
  deriving DecidableEq

/-- The key string an item is about. -/
def FeedItem.interpKey (item : FeedItem Digest) : String :=
  match item.payload with
  | .interpAuthored _ interpKey _ => interpKey
  | .affirmAdded _ targetKey _ => targetKey
  | .responseAdded _ _ interpKey _ => interpKey
  | .transitActive transitKey .. => transitKey
  | .skyAspectActive aspectKey .. => aspectKey
  | .houseTransitActive transitKey .. => transitKey
  | .docEdited _ interpKey => interpKey
  | .blockYouAuthoredWasEdited _ interpKey _ => interpKey
  | .docRolledBack _ interpKey => interpKey
  | .docAffirmed _ interpKey => interpKey
  | .editorPresenceChanged _ interpKey _ => interpKey

/-- The events of the pipeline that a mute silences. -/
inductive SocialEvent (Digest : Type*) where
  | interpAuthored (opId : Digest) (author : Bytes32) (interpKey body : String)
  | affirmAdded (targetLogId : Digest) (voter : Bytes32)
  | responseAdded (opId parentLogId : Digest) (author : Bytes32) (body : String)
  deriving DecidableEq

def isMutedSocialEvent (muted : Bytes32 → Bool) : SocialEvent Digest → Bool
  | .interpAuthored _ author _ _ => muted author
  | .affirmAdded _ voter => muted voter
  | .responseAdded _ _ author _ => muted author

section Items

variable (hash : Hash Digest) (asBytes : Digest → Bytes)

/-- The live item of an event. -/
def stateEventToFeedItem (event : SocialEvent Digest) (timestamp : ℕ) (interpKey : String)
    (targetsMe : Bool) : FeedItem Digest :=
  match event with
  | .interpAuthored opId author key body =>
    ⟨opId, timestamp, targetsMe, .interpAuthored author key body⟩
  | .affirmAdded targetLogId voter =>
    ⟨hash (asBytes targetLogId ++ voter.toList), timestamp, targetsMe,
      .affirmAdded targetLogId interpKey voter⟩
  | .responseAdded opId parentLogId author body =>
    ⟨opId, timestamp, targetsMe, .responseAdded author parentLogId interpKey body⟩

/-- The key shown for an author that is missing or malformed. -/
def zeroKey : Bytes32 := Vector.replicate 32 0

/-- The item of a stored row. `valid` tells which byte strings are keys, and `zeroDigest` is
the id of 32 zero bytes. -/
def feedRowToFeedItem (valid : Bytes32 → Bool) (zeroDigest : Digest) (row : FeedRow Digest)
    (targetsMe : Bool) : FeedItem Digest :=
  let author := (row.authorPk.filter valid).getD zeroKey
  ⟨row.eventId, row.ts, targetsMe, match row.kind with
    | .authored => .interpAuthored author row.interpKey row.body
    | .affirm => .affirmAdded (row.targetLogId.getD zeroDigest) row.interpKey author
    | .response =>
      .responseAdded author (row.parentLogId.getD zeroDigest) row.interpKey row.body⟩

end Items

/-! ## The handler -/

section Handler

variable [DecidableEq Digest] (hash : Hash Digest) (asBytes : Digest → Bytes)
  (S : SignatureScheme Secret VerifyingKey Digest Sig)

/-- The key string and the author of an interpretation. -/
def interpKeyAndAuthor (db : Db Digest Sig) (logId : Digest) : Option (String × Option Bytes32) :=
  (db.interpretations.find? logId).map fun r => (r.interpKey, r.authorPk)

/-- The key string of an interpretation, and whether an event by `actor` on it targets `me`. -/
def lookupTarget (db : Db Digest Sig) (logId : Digest) (actor me : Bytes32) : String × Bool :=
  match interpKeyAndAuthor db logId with
  | some (key, author) => (key, decide (author = some me) && decide (actor ≠ me))
  | none => ("", false)

def affirmLookup (db : Db Digest Sig) (targetLogId : Digest) (voter me : Bytes32) :
    String × Bool := lookupTarget db targetLogId voter me

def responseParentLookup (db : Db Digest Sig) (parentLogId : Digest)
    (responseAuthor me : Bytes32) : String × Bool :=
  lookupTarget db parentLogId responseAuthor me

/-- How an event is persisted. -/
def SocialEvent.storeOp (now : ℕ) : SocialEvent Digest → StoreOp Digest Sig
  | .interpAuthored _ author interpKey body => .insertFromOp interpKey body author now
  | .affirmAdded targetLogId voter => .affirm targetLogId voter now
  | .responseAdded _ parentLogId author body => .insertResponseFromOp parentLogId body author now

/-- The primary key of the row that an event is persisted as. -/
def SocialEvent.rowId (db : Db Digest Sig) : SocialEvent Digest → Digest
  | .interpAuthored _ _ interpKey body => deriveLogId hash interpKey body
  | .affirmAdded targetLogId voter => affirmationId hash asBytes targetLogId voter
  | .responseAdded _ parentLogId _ body =>
    deriveLogId hash (responseKey db.interpretations parentLogId).1 body

/-- Whether the store newly persists the event, as its insert returns it. -/
def SocialEvent.persists (db : Db Digest Sig) (event : SocialEvent Digest) : Bool :=
  match event with
  | .interpAuthored _ _ _ _ => decide (db.interpretations.Free (event.rowId hash asBytes db))
  | .affirmAdded targetLogId voter =>
    !affirmed db.affirmations targetLogId voter &&
      decide (db.affirmations.Free (event.rowId hash asBytes db))
  | .responseAdded _ _ _ _ => decide (db.interpretations.Free (event.rowId hash asBytes db))

/-- The kind of the rows that `recent_feed_rows` returns for an event. -/
def SocialEvent.rowKind : SocialEvent Digest → FeedRowKind
  | .interpAuthored _ _ _ _ => .authored
  | .affirmAdded _ _ => .affirm
  | .responseAdded _ _ _ _ => .response

/-- Persist the event, and build its live item if it is new. -/
def syncStateEvent (db : Db Digest Sig) (me : Bytes32) (muted : Bytes32 → Bool)
    (event : SocialEvent Digest) (now : ℕ) : Db Digest Sig × Option (FeedItem Digest) :=
  if isMutedSocialEvent muted event then (db, none)
  else
    let db' := db.step hash asBytes S (event.storeOp now)
    let target := match event with
      | .interpAuthored _ _ interpKey _ => (interpKey, false)
      | .affirmAdded targetLogId voter => affirmLookup db' targetLogId voter me
      | .responseAdded _ parentLogId author _ => responseParentLookup db' parentLogId author me
    (db', if event.persists hash asBytes db then
      some (stateEventToFeedItem hash asBytes event now target.1 target.2) else none)

end Handler

/-! ## The feed -/

inductive FeedCategory where
  | all
  | personal
  | sky
  | community
  deriving DecidableEq, Repr

def matchCategory (category : FeedCategory) (item : FeedItem Digest) : Bool :=
  match category, item.payload with
  | .all, _ => true
  | .personal, .transitActive .. => true
  | .personal, .houseTransitActive .. => true
  | .personal, _ => false
  | .sky, .skyAspectActive .. => true
  | .sky, _ => false
  | .community, .transitActive .. => false
  | .community, .skyAspectActive .. => false
  | .community, .houseTransitActive .. => false
  | .community, _ => true

def matchKey (filterKey : Option String) (item : FeedItem Digest) : Bool :=
  match filterKey with
  | none => true
  | some want => decide (want = item.interpKey)

structure FeedCard (Digest : Type*) where
  item : FeedItem Digest
  read : Bool
  deriving DecidableEq

structure FeedView (Digest : Type*) where
  filterKey : Option String
  category : FeedCategory
  cards : List (FeedCard Digest)
  known : Finset Digest
  allItems : List (FeedItem Digest)

/-- Rewrite the first entry that matches. -/
def modifyFirst {α : Type*} (p : α → Bool) (f : α → α) : List α → List α
  | [] => []
  | x :: l => if p x then f x :: l else x :: modifyFirst p f l

/-- Insert before the first entry that is older. -/
def insertNewest {α : Type*} (ts : α → ℕ) (x : α) (l : List α) : List α :=
  l.takeWhile (fun y => decide (ts x ≤ ts y)) ++ x :: l.dropWhile fun y => decide (ts x ≤ ts y)

inductive FeedViewMsg (Digest : Type*) where
  | push (item : FeedItem Digest)
  | reset (items : List (FeedItem Digest))
  | markRead (eventId : Digest)
  | setCategory (category : FeedCategory)
  | cardActivated (eventId : Digest)
  | cardSetRead (eventId : Digest) (read : Bool)

namespace FeedView

variable [DecidableEq Digest] (v : FeedView Digest)

/-- The backlog with an item, in the place it has or in a new one. -/
def backlogWith (item : FeedItem Digest) : List (FeedItem Digest) :=
  if v.allItems.any fun i => decide (i.eventId = item.eventId) then
    modifyFirst (fun i => decide (i.eventId = item.eventId)) (fun _ => item) v.allItems
  else insertNewest FeedItem.timestamp item v.allItems

/-- Show an item, on the card it has or on a new one. -/
def push (item : FeedItem Digest) : FeedView Digest :=
  if !matchKey v.filterKey item then v
  else if !matchCategory v.category item then { v with allItems := v.backlogWith item }
  else if item.eventId ∈ v.known then
    { v with
      allItems := v.backlogWith item
      cards := modifyFirst (fun c => decide (c.item.eventId = item.eventId))
        (fun c => { c with item := item }) v.cards }
  else
    { v with
      allItems := v.backlogWith item
      known := insert item.eventId v.known
      cards := insertNewest (fun c => c.item.timestamp) ⟨item, false⟩ v.cards }

/-- A new card at the end, unless the item has one. -/
def append (item : FeedItem Digest) : FeedView Digest :=
  if item.eventId ∈ v.known then v
  else { v with known := insert item.eventId v.known, cards := v.cards ++ [⟨item, false⟩] }

/-- Show these items and no others. -/
def reset (items : List (FeedItem Digest)) : FeedView Digest :=
  let backlog := (items.filter (matchKey v.filterKey)).insertionSort fun a b =>
    b.timestamp ≤ a.timestamp
  (backlog.filter (matchCategory v.category)).foldl append
    { v with allItems := backlog, known := ∅, cards := [] }

def setRead (eventId : Digest) (read : Bool) : FeedView Digest :=
  { v with
    cards := modifyFirst (fun c => decide (c.item.eventId = eventId))
      (fun c => { c with read := read }) v.cards }

def update : FeedViewMsg Digest → FeedView Digest
  | .push item => v.push item
  | .reset items => v.reset items
  | .markRead eventId => v.setRead eventId true
  | .setCategory category => { v with category := category }.reset v.allItems
  | .cardActivated eventId => v.setRead eventId true
  | .cardSetRead eventId read => v.setRead eventId read

/-- A feed when it is opened. -/
def init (filterKey : Option String) (initial : List (FeedItem Digest)) : FeedView Digest :=
  reset ⟨filterKey, .all, [], ∅, []⟩ initial

omit [DecidableEq Digest] in
/-- The ids of the cards. -/
def cardIds : List Digest := v.cards.map fun c => c.item.eventId

end FeedView

/-! ### One card for each id -/

section ModifyFirst

variable {α β : Type*} {p : α → Bool} {f : α → α} {g : α → β}

theorem map_modifyFirst (keeps : ∀ x, p x = true → g (f x) = g x) (l : List α) :
    (modifyFirst p f l).map g = l.map g := by
  induction l with
  | nil => rfl
  | cons x l ih =>
    unfold modifyFirst
    split_ifs with hx
    · simp [keeps x hx]
    · simp [ih]

theorem insertNewest_perm (ts : α → ℕ) (x : α) (l : List α) :
    (insertNewest ts x l).Perm (x :: l) := by
  unfold insertNewest
  refine List.perm_middle.trans (List.Perm.of_eq ?_)
  rw [List.takeWhile_append_dropWhile]

end ModifyFirst

namespace FeedView

variable [DecidableEq Digest] {v : FeedView Digest} {item : FeedItem Digest}

/-- The cards have different ids, and these are the known ones. -/
structure Deduplicated (v : FeedView Digest) : Prop where
  nodup : v.cardIds.Nodup
  known : ∀ id, id ∈ v.known ↔ id ∈ v.cardIds

omit [DecidableEq Digest] in
theorem Deduplicated.of_cardIds {v' : FeedView Digest} (h : v.Deduplicated)
    (ids : v'.cardIds = v.cardIds) (known : v'.known = v.known) : v'.Deduplicated :=
  ⟨ids ▸ h.nodup, known ▸ ids ▸ h.known⟩

theorem Deduplicated.setRead (h : v.Deduplicated) (eventId : Digest) (read : Bool) :
    (v.setRead eventId read).Deduplicated := by
  have ids : (v.setRead eventId read).cardIds = v.cardIds :=
    map_modifyFirst (f := fun c : FeedCard Digest => { c with read := read }) (fun _ _ => rfl) _
  exact h.of_cardIds ids rfl

theorem Deduplicated.push (h : v.Deduplicated) (item : FeedItem Digest) :
    (v.push item).Deduplicated := by
  unfold FeedView.push
  split_ifs with key category shown
  · exact h
  · exact h.of_cardIds rfl rfl
  · refine h.of_cardIds ?_ rfl
    exact map_modifyFirst (f := fun c : FeedCard Digest => { c with item := item })
      (fun c hc => (of_decide_eq_true hc).symm) v.cards
  · have perm : ((insertNewest (fun c : FeedCard Digest => c.item.timestamp) ⟨item, false⟩
        v.cards).map fun c => c.item.eventId).Perm (item.eventId :: v.cardIds) :=
      (insertNewest_perm _ _ _).map _
    refine ⟨perm.symm.nodup (List.nodup_cons.2 ⟨?_, h.nodup⟩), fun id => ?_⟩
    · exact fun card => shown ((h.known _).2 card)
    · rw [cardIds, perm.mem_iff, Finset.mem_insert, List.mem_cons, h.known]

theorem Deduplicated.append (h : v.Deduplicated) (item : FeedItem Digest) :
    (v.append item).Deduplicated := by
  unfold FeedView.append
  split_ifs with shown
  · exact h
  · have ids : (v.cards ++ [FeedCard.mk item false]).map (fun c => c.item.eventId) =
        v.cardIds ++ [item.eventId] := List.map_append
    refine ⟨?_, fun id => ?_⟩
    · rw [cardIds, ids]
      exact List.nodup_append.2 ⟨h.nodup, List.nodup_singleton _, by grind [h.known item.eventId]⟩
    · rw [cardIds, ids, Finset.mem_insert, List.mem_append, List.mem_singleton, h.known, or_comm]

theorem Deduplicated.reset (v : FeedView Digest) (items : List (FeedItem Digest)) :
    (v.reset items).Deduplicated := by
  have appended : ∀ (items : List (FeedItem Digest)) (v : FeedView Digest), v.Deduplicated →
      (items.foldl FeedView.append v).Deduplicated := by
    intro items
    induction items with
    | nil => exact fun _ h => h
    | cons item items ih => exact fun v h => ih _ (h.append item)
  exact appended _ _ ⟨List.nodup_nil, by simp [cardIds]⟩

theorem Deduplicated.update (h : v.Deduplicated) (msg : FeedViewMsg Digest) :
    (v.update msg).Deduplicated := by
  cases msg with
  | push item => exact h.push item
  | reset items => exact Deduplicated.reset v items
  | markRead eventId => exact h.setRead eventId true
  | setCategory category => exact Deduplicated.reset _ v.allItems
  | cardActivated eventId => exact h.setRead eventId true
  | cardSetRead eventId read => exact h.setRead eventId read

/-- Whatever the feed is sent, no two of its cards have one id. -/
theorem Deduplicated.run (filterKey : Option String) (initial : List (FeedItem Digest))
    (msgs : List (FeedViewMsg Digest)) :
    (exec FeedView.update (FeedView.init filterKey initial) msgs).Deduplicated :=
  exec_keeps Deduplicated (fun _ msg h => h.update msg) (Deduplicated.reset _ initial) msgs

/-- A feed without a filter that shows the events of the community, in any state it reaches. -/
def ShowsCommunity (v : FeedView Digest) : Prop :=
  (∃ initial msgs, v = exec FeedView.update (FeedView.init none initial) msgs) ∧
    v.filterKey = none ∧ (v.category = .all ∨ v.category = .community)

theorem push_filter (v : FeedView Digest) (item : FeedItem Digest) :
    (v.push item).filterKey = v.filterKey ∧ (v.push item).category = v.category := by
  unfold FeedView.push
  split_ifs <;> simp

theorem known_subset_push (v : FeedView Digest) (item : FeedItem Digest) :
    v.known ⊆ (v.push item).known := by
  unfold FeedView.push
  split_ifs
  · exact Finset.Subset.refl _
  · exact Finset.Subset.refl _
  · exact Finset.Subset.refl _
  · exact Finset.subset_insert _ _

theorem mem_known_push (key : v.filterKey = none)
    (category : matchCategory v.category item = true) : item.eventId ∈ (v.push item).known := by
  unfold FeedView.push
  have matches' : matchKey v.filterKey item = true := by rw [key]; rfl
  rw [matches', category]
  by_cases shown : item.eventId ∈ v.known
  · simp [shown]
  · simp [shown]

theorem Deduplicated.pushes (h : v.Deduplicated) (items : List (FeedItem Digest)) :
    (exec FeedView.push v items).Deduplicated :=
  exec_keeps Deduplicated (fun _ item h => h.push item) h items

/-- An item that was pushed has a card. -/
theorem mem_cardIds_pushes (h : v.Deduplicated) (key : v.filterKey = none)
    (category : matchCategory v.category item = true) {items : List (FeedItem Digest)}
    (pushed : item ∈ items) : item.eventId ∈ (exec FeedView.push v items).cardIds := by
  refine ((h.pushes items).known _).1 ?_
  induction items generalizing v with
  | nil => exact absurd pushed List.not_mem_nil
  | cons next items ih =>
    rcases List.mem_cons.1 pushed with rfl | later
    · exact exec_keeps (item.eventId ∈ ·.known) (fun v next known => known_subset_push v next known)
        (mem_known_push key category) items
    · obtain ⟨sameKey, sameCategory⟩ := push_filter v next
      exact ih (h.push next) (sameKey.trans key) (sameCategory.symm ▸ category) later

end FeedView

/-! ## The two items of an event -/

section Agreement

variable [DecidableEq Digest] (hash : Hash Digest) (asBytes : Digest → Bytes)
  (S : SignatureScheme Secret VerifyingKey Digest Sig) (valid : Bytes32 → Bool)
  (zeroDigest : Digest)

/-- A row that `recent_feed_rows` may return for the event with the row `rowId`. -/
def BackfillRow (db : Db Digest Sig) (me : Bytes32) (kind : FeedRowKind) (rowId : Digest)
    (e : FeedRow Digest) : Prop :=
  ∃ limit out, RecentFeedRows db me limit out ∧ e ∈ out ∧ e.kind = kind ∧ e.eventId = rowId

/-- The live item of an event and the ones that are built from its row, in the store `db` that
has just written the row or in any later one, have one id. So a feed that has got both has one
card for them, and when that is activated the bell does not count the row. -/
structure Agrees (db : Db Digest Sig) (me : Bytes32) (kind : FeedRowKind) (rowId : Digest)
    (live : FeedItem Digest) : Prop where
  sameId : ∀ later e targetsMe,
    BackfillRow (exec (Db.step hash asBytes S) db later) me kind rowId e →
    (feedRowToFeedItem valid zeroDigest e targetsMe).eventId = live.eventId
  oneCard : ∀ later e targetsMe v (items : List (FeedItem Digest)),
    BackfillRow (exec (Db.step hash asBytes S) db later) me kind rowId e →
    FeedView.ShowsCommunity v → live ∈ items →
    feedRowToFeedItem valid zeroDigest e targetsMe ∈ items →
    ((exec FeedView.push v items).cards.countP fun c =>
      decide (c.item.eventId = live.eventId ∨
        c.item.eventId = (feedRowToFeedItem valid zeroDigest e targetsMe).eventId)) = 1
  marked : ∀ later now, rowId ∉ ((exec (Db.step hash asBytes S) db later).step hash asBytes S
    (.markEventRead live.eventId now)).feedTargetingUnreadIds me

/-- The event is an affirmation, or the hash of its operation is the hash of its content. -/
def SocialEvent.NamedByContent (db : Db Digest Sig) : SocialEvent Digest → Prop
  | .interpAuthored opId _ interpKey body => opId = deriveLogId hash interpKey body
  | .affirmAdded _ _ => True
  | .responseAdded opId parentLogId _ body =>
    opId = deriveLogId hash (responseKey db.interpretations parentLogId).1 body

variable {hash asBytes S valid zeroDigest} {db : Db Digest Sig} {me : Bytes32}
  {muted : Bytes32 → Bool} {event : SocialEvent Digest} {now : ℕ} {live : FeedItem Digest}

/-- What the handler has done when it hands out an item. -/
theorem syncStateEvent_eq_some
    (persisted : (syncStateEvent hash asBytes S db me muted event now).2 = some live) :
    event.persists hash asBytes db = true ∧
      (syncStateEvent hash asBytes S db me muted event now).1 =
        db.step hash asBytes S (event.storeOp now) ∧
      ∃ key targetsMe, live = stateEventToFeedItem hash asBytes event now key targetsMe := by
  unfold syncStateEvent at persisted ⊢
  by_cases silenced : isMutedSocialEvent muted event = true
  · rw [if_pos silenced] at persisted
    cases persisted
  · rw [if_neg silenced] at persisted ⊢
    dsimp only at persisted
    split_ifs at persisted with new
    exact ⟨new, rfl, _, _, (Option.some.inj persisted).symm⟩

omit [DecidableEq Digest] in
theorem matchCategory_social (event : SocialEvent Digest) (ts : ℕ) (key : String)
    (targetsMe : Bool) {category : FeedCategory}
    (shows : category = .all ∨ category = .community) :
    matchCategory category (stateEventToFeedItem hash asBytes event ts key targetsMe) = true := by
  rcases shows with rfl | rfl
  · rfl
  · cases event <;> rfl

/-- An event that is read is not counted. -/
theorem not_mem_unread_of_read {id : Digest} (read : db.isEventRead id = true) :
    id ∉ db.feedTargetingUnreadIds me := by
  intro unread
  rcases List.mem_append.1 unread with affirm | response
  · obtain ⟨a, ha, rfl⟩ := List.mem_map.1 affirm
    simp [read] at ha
  · obtain ⟨r, hr, rfl⟩ := List.mem_map.1 response
    simp [read] at hr

/-- Items with one id are one card and one mark. -/
theorem Agrees.of_eventId {kind : FeedRowKind} {rowId : Digest}
    (social : ∀ category, category = .all ∨ category = .community →
      matchCategory category live = true) (same : live.eventId = rowId) :
    Agrees hash asBytes S valid zeroDigest db me kind rowId live where
  sameId := by
    rintro later e targetsMe ⟨limit, out, -, -, -, named⟩
    exact named.trans same.symm
  oneCard := by
    rintro later e targetsMe v items ⟨limit, out, -, -, -, named⟩ ⟨reached, key, category⟩ pushed -
    have rowItem : (feedRowToFeedItem valid zeroDigest e targetsMe).eventId = live.eventId :=
      named.trans same.symm
    have dedup : v.Deduplicated := by
      obtain ⟨initial, msgs, rfl⟩ := reached
      exact FeedView.Deduplicated.run none initial msgs
    have card := FeedView.mem_cardIds_pushes dedup key (social _ category) pushed
    have once := List.count_eq_one_of_mem (dedup.pushes items).nodup card
    rw [FeedView.cardIds, List.count, List.countP_map] at once
    rw [← once]
    apply List.countP_congr
    intro c _
    simp [rowItem]
  marked := by
    intro later now
    refine not_mem_unread_of_read ?_
    simp [Db.step, Db.isEventRead, Table.find?_upsert, same]

/-- The row of an event that was newly persisted is returned for it. -/
theorem exists_backfillRow {now : ℕ} (new : event.persists hash asBytes db = true)
    (named : ∀ targetLogId voter, event ≠ .affirmAdded targetLogId voter) :
    ∃ e, BackfillRow (db.step hash asBytes S (event.storeOp now)) me event.rowKind
      (event.rowId hash asBytes db) e := by
  obtain ⟨limit, out, read, all⟩ :=
    exists_recentFeedRows (db.step hash asBytes S (event.storeOp now)) me
  cases event with
  | interpAuthored opId author interpKey body =>
    let r : InterpRow Digest Sig := opRow hash interpKey body author now
    have stored : r ∈ insertFromOp hash db.interpretations interpKey body author now :=
      Table.mem_insertOrIgnore.2 (.inr ⟨rfl, of_decide_eq_true new⟩)
    have listed : r.feedRow me .authored ∈
        (db.step hash asBytes S (.insertFromOp interpKey body author now)).authoredFeed me :=
      List.mem_map_of_mem (List.mem_filter.2 ⟨stored, rfl⟩)
    have returned := all _ (List.mem_append_left _ (List.mem_append_left _ listed))
    exact ⟨_, limit, out, read, returned, rfl, rfl⟩
  | affirmAdded targetLogId voter => exact absurd rfl (named targetLogId voter)
  | responseAdded opId parentLogId author body =>
    let key := responseKey db.interpretations parentLogId
    let r : InterpRow Digest Sig := responseRow hash key.1 key.2 parentLogId body author now
    have stored : r ∈ insertResponseFromOp hash db.interpretations parentLogId body author now :=
      Table.mem_insertOrIgnore.2 (.inr ⟨rfl, of_decide_eq_true new⟩)
    have listed : r.feedRow me .response ∈
        (db.step hash asBytes S
          (.insertResponseFromOp parentLogId body author now)).responseFeed me :=
      List.mem_map_of_mem (List.mem_filter.2 ⟨stored, rfl⟩)
    have returned := all _ (List.mem_append_left _ (List.mem_append_right _ listed))
    exact ⟨_, limit, out, read, returned, rfl, rfl⟩

/-- A live item that agrees has the id of the row. -/
theorem Agrees.eventId_eq (agrees : Agrees hash asBytes S valid zeroDigest
      (db.step hash asBytes S (event.storeOp now)) me event.rowKind
      (event.rowId hash asBytes db) live)
    (new : event.persists hash asBytes db = true)
    (named : ∀ targetLogId voter, event ≠ .affirmAdded targetLogId voter) :
    live.eventId = event.rowId hash asBytes db := by
  obtain ⟨e, row⟩ := exists_backfillRow new named
  have same := agrees.sameId [] e false row
  obtain ⟨limit, out, -, -, -, id⟩ := row
  exact same.symm.trans id

/-- The live item of a newly persisted event agrees with the backfilled ones, in every store
that comes after, exactly if the event is an affirmation or its operation has the hash of its
content. -/
theorem live_backfill_agree_iff (hash : Hash Digest) (asBytes : Digest → Bytes)
    (S : SignatureScheme Secret VerifyingKey Digest Sig) (valid : Bytes32 → Bool)
    (zeroDigest : Digest) (db : Db Digest Sig) (me : Bytes32) (muted : Bytes32 → Bool)
    (event : SocialEvent Digest) (now : ℕ) (live : FeedItem Digest)
    (persisted : (syncStateEvent hash asBytes S db me muted event now).2 = some live) :
    Agrees hash asBytes S valid zeroDigest (syncStateEvent hash asBytes S db me muted event now).1
        me event.rowKind (event.rowId hash asBytes db) live ↔
      event.NamedByContent hash db := by
  obtain ⟨new, written, key, targetsMe, rfl⟩ := syncStateEvent_eq_some persisted
  rw [written]
  constructor
  · intro agrees
    cases event with
    | affirmAdded => trivial
    | interpAuthored => exact agrees.eventId_eq new (by simp)
    | responseAdded => exact agrees.eventId_eq new (by simp)
  · intro named
    refine Agrees.of_eventId (fun _ shows => matchCategory_social event now key targetsMe shows) ?_
    cases event with
    | interpAuthored => exact named
    | affirmAdded => rfl
    | responseAdded => exact named

end Agreement

/-! ## A text that arrives while the feed is filled -/

/-- An operation with the hash `[9]` that carries a text. -/
def calmEvent : SocialEvent Bytes :=
  .interpAuthored [9] (Vector.replicate 32 2) "natal:sun_trine_moon" "calm"

/-- Its live item. -/
def calmLive : FeedItem Bytes :=
  stateEventToFeedItem id id calmEvent 5 "natal:sun_trine_moon" false

/-- The row it is stored as. -/
def calmRow : InterpRow Bytes (UInt8 × Bytes) :=
  opRow id "natal:sun_trine_moon" "calm" (Vector.replicate 32 2) 5

theorem live_backfill_agree_iff_calm :
    Agrees id id symbolicSignatures (fun _ => true) []
        (syncStateEvent id id symbolicSignatures Db.empty (Vector.replicate 32 1) (fun _ => false)
          calmEvent 5).1 (Vector.replicate 32 1) calmEvent.rowKind
        (calmEvent.rowId id id (Db.empty : Db Bytes (UInt8 × Bytes))) calmLive ↔
      calmEvent.NamedByContent id (Db.empty : Db Bytes (UInt8 × Bytes)) :=
  live_backfill_agree_iff id id symbolicSignatures (fun _ => true) [] Db.empty
    (Vector.replicate 32 1) (fun _ => false) calmEvent 5 calmLive rfl

/-- The text is newly persisted, its row is returned for it, and a feed that gets both items
shows two cards. -/
theorem two_cards :
    let handled := syncStateEvent id id symbolicSignatures Db.empty (Vector.replicate 32 1)
      (fun _ => false) calmEvent 5
    let row := calmRow.feedRow (Vector.replicate 32 1) .authored
    let backfilled := feedRowToFeedItem (fun _ => true) [] row false
    handled.2 = some calmLive ∧ row ∈ handled.1.authoredFeed (Vector.replicate 32 1) ∧
      calmLive.eventId ≠ backfilled.eventId ∧
      (exec FeedView.push (FeedView.init none []) [calmLive, backfilled]).cards.length = 2 := by
  refine ⟨rfl, ?_, ?_, ?_⟩
  · decide
  · decide
  · decide

end Zodia.App
