import Mathlib.Data.List.TakeWhile
import Zodia.App.FeedItems
import Zodia.Lib.Newest

/-!
# The feed as a sorted view

The feed keeps a backlog, the ids it knows and the cards, and changes them in place when an item
is pushed. A record beside it says which item of each id came last. The cards should be the ones
of the record that pass the filters, newest first, and rebuilding them from the backlog should
show the same.

## Main definitions

* `Fed` — a feed with the record of the items it was sent.
* `Fed.Faithful` — the cards are right, and would be after every change of the category.
* `Fed.Fits` — the message moves no card and hides none, and is not behind a second copy.

## Main results

* `feed_faithful_iff` — the feed is faithful in every state of a run exactly if all messages fit.
* `card_out_of_order` — a card whose timestamp changes stays where it is.
-/

namespace Zodia.App

open Lib

variable {Digest : Type*}

/-! ## The model -/

/-- The one category of an item, beside `all`. -/
def FeedItem.kind (item : FeedItem Digest) : FeedCategory :=
  match item.payload with
  | .transitActive .. => .personal
  | .houseTransitActive .. => .personal
  | .skyAspectActive .. => .sky
  | _ => .community

theorem matchCategory_iff {category : FeedCategory} {item : FeedItem Digest} :
    matchCategory category item = true ↔ category = .all ∨ category = item.kind := by
  rcases item with ⟨_, _, _, payload⟩
  cases category <;> cases payload <;> simp [matchCategory, FeedItem.kind]

theorem FeedItem.kind_ne_all (item : FeedItem Digest) : item.kind ≠ .all := by
  rcases item with ⟨_, _, _, payload⟩
  cases payload <;> simp [FeedItem.kind]

/-- The items on the cards. -/
def FeedView.items (v : FeedView Digest) : List (FeedItem Digest) := v.cards.map FeedCard.item

theorem FeedView.cardIds_eq (v : FeedView Digest) :
    v.cardIds = v.items.map FeedItem.eventId := List.map_map.symm

/-- A feed, and for each id the item that came last among those that pass the key filter. -/
structure Fed (Digest : Type*) where
  view : FeedView Digest
  latest : Digest → Option (FeedItem Digest)

namespace Fed

section Model

variable [DecidableEq Digest] (w : Fed Digest)

/-- A feed before its first items. -/
def opened (filterKey : Option String) : Fed Digest :=
  ⟨⟨filterKey, .all, [], ∅, []⟩, fun _ => none⟩

/-- The record after a message. Of the items of a `Reset` with one id the newest is the last. -/
def record : FeedViewMsg Digest → Digest → Option (FeedItem Digest)
  | .push item =>
    if matchKey w.view.filterKey item then Function.update w.latest item.eventId (some item)
    else w.latest
  | .reset items => fun eventId =>
    ((items.filter (matchKey w.view.filterKey)).filter fun i =>
      decide (i.eventId = eventId)).argmax FeedItem.timestamp
  | _ => w.latest

def step (msg : FeedViewMsg Digest) : Fed Digest := ⟨w.view.update msg, w.record msg⟩

omit [DecidableEq Digest] in
/-- The item came last for its id, and passes both filters. -/
def Listed (category : FeedCategory) (item : FeedItem Digest) : Prop :=
  w.latest item.eventId = some item ∧ matchKey w.view.filterKey item = true ∧
    matchCategory category item = true

/-- The cards show exactly the items that are listed, newest first, each id once, and so would
the cards that are rebuilt from the backlog for any category. -/
structure Faithful : Prop where
  once : w.view.cardIds.Nodup
  newestFirst : NewestFirst FeedItem.timestamp w.view.items
  shown : ∀ item, item ∈ w.view.items ↔ w.Listed w.view.category item
  rebuilt : ∀ category item,
    item ∈ ({ w.view with category := category }.reset w.view.allItems).items ↔
      w.Listed category item

end Model

end Fed

namespace FeedView

/-- If the backlog has several entries with the id of the item, all but the first are of its kind
and not newer. -/
def Supersedes [DecidableEq Digest] (v : FeedView Digest) (item : FeedItem Digest) : Prop :=
  ∀ further ∈ (v.allItems.filter fun i => decide (i.eventId = item.eventId)).tail,
    further.kind = item.kind ∧ further.timestamp ≤ item.timestamp

/-- The card the item has, if there is one, may show it where it is. -/
def InPlace (v : FeedView Digest) (item : FeedItem Digest) : Prop :=
  ∀ before old after, v.items = before ++ old :: after → old.eventId = item.eventId →
    matchCategory v.category item = true ∧
      (∀ i ∈ before, item.timestamp ≤ i.timestamp) ∧ ∀ i ∈ after, i.timestamp ≤ item.timestamp

end FeedView

/-- What a message has to meet. -/
def Fed.Fits [DecidableEq Digest] (w : Fed Digest) : FeedViewMsg Digest → Prop
  | .push item =>
    matchKey w.view.filterKey item = true → w.view.Supersedes item ∧ w.view.InPlace item
  | .reset items => ∀ a ∈ items, ∀ b ∈ items, matchKey w.view.filterKey a = true →
    matchKey w.view.filterKey b = true → a.eventId = b.eventId → a.kind = b.kind
  | _ => True

/-! ## Lists -/

section Lists

variable {α : Type*} {p q : α → Bool} {f : α → α}

theorem modifyFirst_append_cons {before after : List α} {x : α} (none : ∀ y ∈ before, p y = false)
    (found : p x = true) :
    modifyFirst p f (before ++ x :: after) = before ++ f x :: after := by
  induction before with
  | nil => exact if_pos found
  | cons y before ih =>
    have no : ¬ p y = true := by simp [none y List.mem_cons_self]
    have later := ih fun z mem => none z (List.mem_cons_of_mem _ mem)
    exact (if_neg no).trans (congrArg _ later)

theorem map_modifyFirst_comm {β : Type*} {g : α → β} {r : β → Bool} {h : β → β}
    (found : ∀ x, r (g x) = p x) (rewritten : ∀ x, g (f x) = h (g x)) (l : List α) :
    (modifyFirst p f l).map g = modifyFirst r h (l.map g) := by
  induction l with
  | nil => rfl
  | cons x l ih =>
    simp only [List.map_cons, modifyFirst, found]
    split_ifs
    · rw [List.map_cons, rewritten]
    · rw [List.map_cons, ih]

theorem map_insertNewest {β : Type*} {g : α → β} {ts : α → ℕ} {ts' : β → ℕ}
    (same : ∀ x, ts' (g x) = ts x) (x : α) (l : List α) :
    (insertNewest ts x l).map g = insertNewest ts' (g x) (l.map g) := by
  simp only [insertNewest, List.map_append, List.map_cons, List.takeWhile_map, List.dropWhile_map,
    Function.comp_def, same]

theorem mem_modifyFirst {x : α} {l : List α} (mem : x ∈ modifyFirst p f l) :
    x ∈ l ∨ ∃ y ∈ l, x = f y := by
  induction l with
  | nil => exact .inl mem
  | cons y l ih =>
    unfold modifyFirst at mem
    split_ifs at mem
    · rcases List.mem_cons.1 mem with rfl | later
      · exact .inr ⟨y, List.mem_cons_self, rfl⟩
      · exact .inl (List.mem_cons_of_mem _ later)
    · rcases List.mem_cons.1 mem with rfl | later
      · exact .inl List.mem_cons_self
      · rcases ih later with old | ⟨z, mem, new⟩
        · exact .inl (List.mem_cons_of_mem _ old)
        · exact .inr ⟨z, List.mem_cons_of_mem _ mem, new⟩

/-- The entries that are not rewritten. -/
theorem filter_modifyFirst (apart : ∀ x, p x = true → q x = false ∧ q (f x) = false) (l : List α) :
    (modifyFirst p f l).filter q = l.filter q := by
  induction l with
  | nil => rfl
  | cons x l ih =>
    unfold modifyFirst
    split_ifs with found
    · rw [List.filter_cons_of_neg (by simp [(apart x found).2]),
        List.filter_cons_of_neg (by simp [(apart x found).1])]
    · rw [List.filter_cons, List.filter_cons, ih]

theorem filter_insertNewest {ts : α → ℕ} {x : α} (apart : q x = false) (l : List α) :
    (insertNewest ts x l).filter q = l.filter q := by
  rw [insertNewest, List.filter_append, List.filter_cons_of_neg (by simp [apart]),
    ← List.filter_append, List.takeWhile_append_dropWhile]

theorem newestFirst_insertNewest {ts : α → ℕ} {l : List α} (sorted : NewestFirst ts l) (x : α) :
    NewestFirst ts (insertNewest ts x l) := by
  refine newestFirst_append_cons.2 ⟨?_, fun y mem => ?_, ?_⟩
  · rwa [List.takeWhile_append_dropWhile]
  · have kept := List.mem_takeWhile_imp mem
    exact of_decide_eq_true kept
  · have tail : NewestFirst ts (l.dropWhile fun y => decide (ts x ≤ ts y)) :=
      sorted.sublist (List.dropWhile_sublist _)
    cases rest : l.dropWhile fun y => decide (ts x ≤ ts y) with
    | nil => exact fun y mem => absurd mem List.not_mem_nil
    | cons z rest' =>
      have older : ¬ ts x ≤ ts z := by
        have head := List.head?_dropWhile_not (fun y => decide (ts x ≤ ts y)) l
        rw [rest] at head
        simpa using head
      rw [rest] at tail
      intro y mem
      rcases List.mem_cons.1 mem with rfl | later
      · exact (not_le.1 older).le
      · exact ((List.pairwise_cons.1 tail).1 y later).trans (not_le.1 older).le

end Lists

/-! ## Rebuilding -/

namespace FeedView

variable [DecidableEq Digest] {v : FeedView Digest}

/-- The newest entry of an id that passes a category. -/
def newest (category : FeedCategory) (eventId : Digest) (l : List (FeedItem Digest)) :
    Option (FeedItem Digest) :=
  (l.filter fun i => matchCategory category i && decide (i.eventId = eventId)).argmax
    FeedItem.timestamp

theorem newest_eq_some {category : FeedCategory} {eventId : Digest} {l : List (FeedItem Digest)}
    {item : FeedItem Digest} (found : newest category eventId l = some item) :
    item ∈ l ∧ matchCategory category item = true ∧ item.eventId = eventId := by
  obtain ⟨mem, both⟩ := List.mem_filter.1 (List.argmax_mem found)
  obtain ⟨category, id⟩ := Bool.and_eq_true_iff.1 both
  exact ⟨mem, category, of_decide_eq_true id⟩

/-- The new cards are those of the first entry of each id that has none. -/
theorem items_foldl_append (dedup : v.Deduplicated) (l : List (FeedItem Digest)) :
    ∃ new, (l.foldl append v).items = v.items ++ new ∧ new.Sublist l ∧
      ∀ item, item ∈ new ↔ item.eventId ∉ v.known ∧
        l.find? (fun i => decide (i.eventId = item.eventId)) = some item := by
  induction l generalizing v with
  | nil => exact ⟨[], by simp, .slnil, by simp⟩
  | cons first l ih =>
    obtain ⟨new, items, sub, mem⟩ := ih (dedup.append first)
    by_cases shown : first.eventId ∈ v.known
    · have same : v.append first = v := if_pos shown
      rw [same] at items mem
      refine ⟨new, by rw [List.foldl_cons, same, items], sub.cons _, fun item => ?_⟩
      rw [mem]
      refine and_congr_right fun fresh => ?_
      rw [List.find?_cons_of_neg]
      rw [decide_eq_true_eq]
      rintro same
      exact fresh (same ▸ shown)
    · have items_append : (v.append first).items = v.items ++ [first] := by
        simp [append, shown, FeedView.items]
      have known : (v.append first).known = insert first.eventId v.known := by
        simp [append, shown]
      refine ⟨first :: new, ?_, sub.cons_cons _, fun item => ?_⟩
      · rw [List.foldl_cons, items, items_append, List.append_assoc, List.singleton_append]
      · rw [List.mem_cons, mem, known, Finset.mem_insert, not_or]
        by_cases same : first.eventId = item.eventId
        · rw [List.find?_cons_of_pos (by simpa using same), Option.some.injEq]
          constructor
          · rintro (rfl | ⟨⟨other, -⟩, -⟩)
            · exact ⟨shown, rfl⟩
            · exact absurd same.symm other
          · rintro ⟨-, rfl⟩
            exact .inl rfl
        · rw [List.find?_cons_of_neg (by simpa using same)]
          constructor
          · rintro (rfl | ⟨⟨-, fresh⟩, found⟩)
            · exact absurd rfl same
            · exact ⟨fresh, found⟩
          · rintro ⟨fresh, found⟩
            exact .inr ⟨⟨fun same' => same same'.symm, fresh⟩, found⟩

theorem foldl_append_frame (l : List (FeedItem Digest)) (v : FeedView Digest) :
    (l.foldl append v).allItems = v.allItems ∧ (l.foldl append v).filterKey = v.filterKey ∧
      (l.foldl append v).category = v.category := by
  induction l generalizing v with
  | nil => exact ⟨rfl, rfl, rfl⟩
  | cons item l ih =>
    have same : (v.append item).allItems = v.allItems ∧ (v.append item).filterKey = v.filterKey ∧
        (v.append item).category = v.category := by
      unfold append
      split_ifs <;> exact ⟨rfl, rfl, rfl⟩
    obtain ⟨backlog, filterKey, category⟩ := ih (v.append item)
    exact ⟨backlog.trans same.1, filterKey.trans same.2.1, category.trans same.2.2⟩

theorem allItems_reset (items : List (FeedItem Digest)) :
    (v.reset items).allItems = (items.filter (matchKey v.filterKey)).insertionSort fun a b =>
      b.timestamp ≤ a.timestamp := (foldl_append_frame _ _).1

theorem filterKey_reset (items : List (FeedItem Digest)) :
    (v.reset items).filterKey = v.filterKey := (foldl_append_frame _ _).2.1

theorem category_reset (items : List (FeedItem Digest)) :
    (v.reset items).category = v.category := (foldl_append_frame _ _).2.2

theorem keyed_reset (items : List (FeedItem Digest)) :
    ∀ i ∈ (v.reset items).allItems, matchKey (v.reset items).filterKey i = true := by
  intro i mem
  rw [allItems_reset, List.mem_insertionSort] at mem
  rw [filterKey_reset]
  exact (List.mem_filter.1 mem).2

/-- The cards of a feed that was reset. -/
theorem items_reset (items : List (FeedItem Digest)) :
    NewestFirst FeedItem.timestamp (v.reset items).items ∧
      ∀ item, item ∈ (v.reset items).items ↔
        newest v.category item.eventId (items.filter (matchKey v.filterKey)) = some item := by
  have empty : Deduplicated { v with
      allItems := (items.filter (matchKey v.filterKey)).insertionSort fun a b =>
        b.timestamp ≤ a.timestamp
      known := ∅
      cards := [] } := ⟨List.nodup_nil, by simp [cardIds]⟩
  obtain ⟨new, cards, sub, mem⟩ := items_foldl_append empty
    (((items.filter (matchKey v.filterKey)).insertionSort fun a b =>
      b.timestamp ≤ a.timestamp).filter (matchCategory v.category))
  have cards : (v.reset items).items = new := cards
  rw [cards]
  refine ⟨?_, fun item => ?_⟩
  · exact (newestFirst_insertionSort FeedItem.timestamp _).sublist
      (sub.trans List.filter_sublist)
  · rw [mem, List.find?_filter, newest, ← find?_insertionSort]
    simp

/-- Rebuilding and sorting do not change the newest entries. -/
theorem newest_allItems_reset (items : List (FeedItem Digest)) (category : FeedCategory)
    (eventId : Digest) : newest category eventId (v.reset items).allItems =
      newest category eventId (items.filter (matchKey v.filterKey)) := by
  rw [allItems_reset]
  exact argmax_filter_insertionSort FeedItem.timestamp _ _

end FeedView

namespace FeedView

variable [DecidableEq Digest] {v : FeedView Digest} {item : FeedItem Digest}

/-! ### The cards with an item -/

theorem items_push (key : matchKey v.filterKey item = true) :
    (v.push item).items =
      if matchCategory v.category item = true then
        if item.eventId ∈ v.known then
          modifyFirst (fun i => decide (i.eventId = item.eventId)) (fun _ => item) v.items
        else insertNewest FeedItem.timestamp item v.items
      else v.items := by
  unfold push
  rw [key]
  by_cases shows : matchCategory v.category item = true
  · rw [shows]
    by_cases known : item.eventId ∈ v.known
    · simp only [Bool.not_true, Bool.false_eq_true, if_false, if_pos known, if_true]
      refine map_modifyFirst_comm ?_ ?_ v.cards
      · exact fun _ => rfl
      · exact fun _ => rfl
    · simp only [Bool.not_true, Bool.false_eq_true, if_false, if_neg known, if_true]
      exact map_insertNewest (g := FeedCard.item) (fun _ => rfl) _ _
  · simp [shows, FeedView.items]

omit [DecidableEq Digest] in
/-- Other cards have other ids. -/
theorem Deduplicated.ne_of_before (h : v.Deduplicated) {before after : List (FeedItem Digest)}
    {old : FeedItem Digest} (split : v.items = before ++ old :: after) {i : FeedItem Digest}
    (mem : i ∈ before ∨ i ∈ after) : i.eventId ≠ old.eventId := by
  have nodup := h.nodup
  rw [cardIds_eq, split, List.map_append, List.map_cons, List.nodup_middle, List.nodup_cons,
    ← List.map_append] at nodup
  intro same
  exact nodup.1 (same ▸ List.mem_map_of_mem (List.mem_append.2 mem))

omit [DecidableEq Digest] in
theorem Deduplicated.mem_known (h : v.Deduplicated) {eventId : Digest} :
    eventId ∈ v.known ↔ ∃ i ∈ v.items, i.eventId = eventId := by
  rw [h.known, cardIds_eq, List.mem_map]

omit [DecidableEq Digest] in
theorem Deduplicated.ne_of_not_known (h : v.Deduplicated) (fresh : item.eventId ∉ v.known)
    {i : FeedItem Digest} (mem : i ∈ v.items) : i.eventId ≠ item.eventId :=
  fun same => fresh (h.mem_known.2 ⟨i, mem, same⟩)

/-- The card of the item is rewritten where it is. -/
theorem Deduplicated.modifyFirst_items (h : v.Deduplicated) {before after : List (FeedItem Digest)}
    {old : FeedItem Digest} (split : v.items = before ++ old :: after)
    (same : old.eventId = item.eventId) :
    modifyFirst (fun i => decide (i.eventId = item.eventId)) (fun _ => item) v.items =
      before ++ item :: after := by
  rw [split]
  refine modifyFirst_append_cons (fun i mem => ?_) (decide_eq_true same)
  exact decide_eq_false fun same' => h.ne_of_before split (.inl mem) (same'.trans same.symm)

/-- The cards are right: in order, the card of the item shows it if it is not hidden, and the
others stay. -/
def RightAfter (v : FeedView Digest) (item : FeedItem Digest) (items : List (FeedItem Digest)) :
    Prop :=
  NewestFirst FeedItem.timestamp items ∧
    ∀ i, i ∈ items ↔
      if i.eventId = item.eventId then i = item ∧ matchCategory v.category item = true
      else i ∈ v.items

theorem Deduplicated.rewritten_iff (h : v.Deduplicated)
    (sorted : NewestFirst FeedItem.timestamp v.items)
    (shows : matchCategory v.category item = true) (known : item.eventId ∈ v.known) :
    v.RightAfter item
        (modifyFirst (fun i => decide (i.eventId = item.eventId)) (fun _ => item) v.items) ↔
      v.InPlace item := by
  constructor
  · rintro ⟨sorted', -⟩ before old after split same
    rw [h.modifyFirst_items split same] at sorted'
    exact ⟨shows, (newestFirst_append_cons.1 sorted').2⟩
  · intro inPlace
    obtain ⟨old, mem, same⟩ := h.mem_known.1 known
    obtain ⟨before, after, split⟩ := List.append_of_mem mem
    rw [h.modifyFirst_items split same]
    constructor
    · refine newestFirst_append_cons.2 ⟨?_, (inPlace before old after split same).2⟩
      rw [split] at sorted
      exact (newestFirst_append_cons.1 sorted).1
    · intro i
      rw [split]
      have apart : i ∈ before ∨ i ∈ after → i.eventId ≠ old.eventId := h.ne_of_before split
      grind

/-- An item without a card gets one in the right place. -/
theorem Deduplicated.inserted (h : v.Deduplicated)
    (sorted : NewestFirst FeedItem.timestamp v.items)
    (shows : matchCategory v.category item = true) (fresh : item.eventId ∉ v.known) :
    v.RightAfter item (insertNewest FeedItem.timestamp item v.items) := by
  refine ⟨newestFirst_insertNewest sorted item, fun i => ?_⟩
  rw [(insertNewest_perm FeedItem.timestamp item v.items).mem_iff, List.mem_cons]
  split_ifs with same
  · rw [or_iff_left fun mem => h.ne_of_not_known fresh mem same]
    exact (and_iff_left shows).symm
  · exact or_iff_right fun eq => same (eq ▸ rfl)

/-- An item that is hidden should have no card. -/
theorem hidden_iff (sorted : NewestFirst FeedItem.timestamp v.items)
    (hidden : ¬ matchCategory v.category item = true) :
    v.RightAfter item v.items ↔ v.InPlace item := by
  constructor
  · rintro ⟨-, mem⟩ before old after split same
    have gone := (mem old).1 (split ▸ List.mem_append_cons_self)
    rw [if_pos same] at gone
    exact absurd gone.2 hidden
  · intro inPlace
    refine ⟨sorted, fun i => ?_⟩
    split_ifs with same
    · refine iff_of_false (fun mem => ?_) fun both => hidden both.2
      obtain ⟨before, after, split⟩ := List.append_of_mem mem
      exact hidden (inPlace before i after split same).1
    · rfl

/-- Pushing an item leaves the cards right exactly if the card it has may show it where it is. -/
theorem Deduplicated.items_push_iff (h : v.Deduplicated)
    (sorted : NewestFirst FeedItem.timestamp v.items) (key : matchKey v.filterKey item = true) :
    v.RightAfter item (v.push item).items ↔ v.InPlace item := by
  rw [items_push key]
  split_ifs with shows known
  · exact h.rewritten_iff sorted shows known
  · refine iff_of_true (h.inserted sorted shows known) ?_
    intro before old after split same
    exact absurd same (h.ne_of_not_known known (split ▸ List.mem_append_cons_self))
  · exact hidden_iff sorted shows

/-! ### The backlog with an item -/

theorem newest_backlogWith_of_ne {eventId : Digest} (other : item.eventId ≠ eventId)
    (category : FeedCategory) :
    newest category eventId (v.backlogWith item) = newest category eventId v.allItems := by
  unfold backlogWith
  split_ifs
  · refine congrArg (List.argmax FeedItem.timestamp) (filter_modifyFirst (fun x found => ?_) _)
    have same : x.eventId = item.eventId := of_decide_eq_true found
    simp [same, other]
  · refine congrArg (List.argmax FeedItem.timestamp) (filter_insertNewest ?_ _)
    simp [other]

/-- The item takes the place of the first entry with its id. -/
theorem filter_backlogWith_self :
    ((v.backlogWith item).filter fun i => decide (i.eventId = item.eventId)) =
      item :: (v.allItems.filter fun i => decide (i.eventId = item.eventId)).tail := by
  unfold backlogWith
  split_ifs with present
  · obtain ⟨before, first, after, split, found, none⟩ :
        ∃ before first after, v.allItems = before ++ first :: after ∧
          decide (first.eventId = item.eventId) = true ∧
          ∀ i ∈ before, decide (i.eventId = item.eventId) = false := by
      obtain ⟨first, mem, found⟩ := List.any_eq_true.1 present
      cases search : v.allItems.find? fun i => decide (i.eventId = item.eventId) with
      | none => exact absurd found (by simpa using List.find?_eq_none.1 search first mem)
      | some first =>
        obtain ⟨found, before, after, split, none⟩ := List.find?_eq_some_iff_append.1 search
        exact ⟨before, first, after, split, found, by simpa using none⟩
    have skipped : (before.filter fun i => decide (i.eventId = item.eventId)) = [] :=
      List.filter_eq_nil_iff.2 fun i mem => by simp [none i mem]
    rw [split, modifyFirst_append_cons none found, List.filter_append, List.filter_append, skipped]
    simp [of_decide_eq_true found]
  · have none : (v.allItems.filter fun i => decide (i.eventId = item.eventId)) = [] := by
      simpa [List.filter_eq_nil_iff] using present
    have perm := (insertNewest_perm FeedItem.timestamp item v.allItems).filter
      fun i => decide (i.eventId = item.eventId)
    rw [List.filter_cons, none, if_pos (decide_eq_true rfl)] at perm
    rw [none, List.perm_singleton.1 perm]
    rfl

theorem newest_eq_filter (category : FeedCategory) (eventId : Digest)
    (l : List (FeedItem Digest)) : newest category eventId l =
      ((l.filter fun i => decide (i.eventId = eventId)).filter
        (matchCategory category)).argmax FeedItem.timestamp := by
  rw [List.filter_filter]
  rfl

/-- The newest entry of the id of the item is the item, in the categories it has, exactly if it
supersedes the others. -/
theorem newest_backlogWith_self :
    (∀ category, newest category item.eventId (v.backlogWith item) =
        (some item).filter (matchCategory category)) ↔ v.Supersedes item := by
  simp only [newest_eq_filter, filter_backlogWith_self, Supersedes]
  generalize (v.allItems.filter fun i => decide (i.eventId = item.eventId)).tail = rest
  constructor
  · intro newest further mem
    constructor
    · by_contra other
      have hidden : matchCategory further.kind item = false := by
        rw [Bool.eq_false_iff, ne_eq, matchCategory_iff]
        rintro (all | same)
        · exact further.kind_ne_all all
        · exact other same
      have none := newest further.kind
      rw [List.filter_cons_of_neg (by simp [hidden]), Option.filter_some_neg hidden,
        List.argmax_eq_none, List.filter_eq_nil_iff] at none
      exact none further mem (matchCategory_iff.2 (.inr rfl))
    · have all := newest .all
      have unfiltered : (item :: rest).filter (matchCategory .all) = item :: rest :=
        List.filter_eq_self.2 fun _ _ => rfl
      rw [unfiltered, Option.filter_some_pos rfl, argmax_cons_eq_some_iff] at all
      exact all further mem
  · intro supersedes category
    cases shows : matchCategory category item with
    | true =>
      rw [List.filter_cons_of_pos shows, Option.filter_some_pos shows, argmax_cons_eq_some_iff]
      exact fun further mem => (supersedes further (List.mem_filter.1 mem).1).2
    | false =>
      rw [List.filter_cons_of_neg (by simp [shows]), Option.filter_some_neg shows,
        List.argmax_eq_none, List.filter_eq_nil_iff]
      intro further mem matches'
      rw [← Bool.not_eq_true] at shows
      refine shows (matchCategory_iff.2 ?_)
      rcases matchCategory_iff.1 matches' with all | same
      · exact .inl all
      · exact .inr (same.trans (supersedes further mem).1)

end FeedView

namespace Fed

variable [DecidableEq Digest] {w : Fed Digest} {items : List (FeedItem Digest)}
  {item : FeedItem Digest}

/-- What holds in every state of a feed. -/
structure Recorded (w : Fed Digest) : Prop where
  dedup : w.view.Deduplicated
  keyed : ∀ i ∈ w.view.allItems, matchKey w.view.filterKey i = true
  latest : ∀ eventId item, w.latest eventId = some item →
    item.eventId = eventId ∧ matchKey w.view.filterKey item = true

/-- The newest entry of each id, in each category, is the one that came last, if that has the
category. -/
def Settled (w : Fed Digest) : Prop :=
  ∀ category eventId, FeedView.newest category eventId w.view.allItems =
    (w.latest eventId).filter (matchCategory category)

omit [DecidableEq Digest] in
theorem Recorded.filter_eq_some_iff (h : w.Recorded) {category : FeedCategory} :
    (w.latest item.eventId).filter (matchCategory category) = some item ↔
      w.Listed category item := by
  rw [Option.filter_eq_some_iff]
  exact ⟨fun ⟨last, matches'⟩ => ⟨last, (h.latest _ _ last).2, matches'⟩,
    fun ⟨last, _, matches'⟩ => ⟨last, matches'⟩⟩

omit [DecidableEq Digest] in
theorem Recorded.filter_allItems (h : w.Recorded) :
    w.view.allItems.filter (matchKey w.view.filterKey) = w.view.allItems :=
  List.filter_eq_self.2 h.keyed

/-- The rebuilt cards are right exactly if the backlog is. -/
theorem Recorded.rebuilt_iff (h : w.Recorded) :
    (∀ category item, item ∈ ({ w.view with category := category }.reset w.view.allItems).items ↔
      w.Listed category item) ↔ w.Settled := by
  have rebuilt : ∀ category item,
      item ∈ ({ w.view with category := category }.reset w.view.allItems).items ↔
        FeedView.newest category item.eventId w.view.allItems = some item := by
    intro category item
    have mem := (FeedView.items_reset (v := { w.view with category := category })
      w.view.allItems).2 item
    rwa [h.filter_allItems] at mem
  constructor
  · intro right category eventId
    refine Option.ext fun item => ?_
    constructor
    · intro found
      obtain rfl := (FeedView.newest_eq_some found).2.2
      exact h.filter_eq_some_iff.2 ((right category item).1 ((rebuilt category item).2 found))
    · intro last
      obtain rfl := (h.latest _ _ (Option.filter_eq_some_iff.1 last).1).1
      exact (rebuilt category item).1 ((right category item).2 (h.filter_eq_some_iff.1 last))
  · intro settled category item
    rw [rebuilt, settled, h.filter_eq_some_iff]

theorem Recorded.faithful_iff (h : w.Recorded) :
    w.Faithful ↔ NewestFirst FeedItem.timestamp w.view.items ∧
      (∀ item, item ∈ w.view.items ↔ w.Listed w.view.category item) ∧ w.Settled :=
  ⟨fun ⟨_, sorted, shown, rebuilt⟩ => ⟨sorted, shown, h.rebuilt_iff.1 rebuilt⟩,
    fun ⟨sorted, shown, settled⟩ => ⟨h.dedup.nodup, sorted, shown, h.rebuilt_iff.2 settled⟩⟩

/-! ### Messages that rebuild the cards -/

/-- Cards that were just rebuilt are right exactly if the backlog is. -/
theorem faithful_reset_iff {v : FeedView Digest} {latest : Digest → Option (FeedItem Digest)}
    (h : Recorded ⟨v.reset items, latest⟩) :
    Faithful ⟨v.reset items, latest⟩ ↔ Settled ⟨v.reset items, latest⟩ := by
  obtain ⟨sorted, mem⟩ := FeedView.items_reset (v := v) items
  rw [h.faithful_iff, and_iff_right sorted, and_iff_right_iff_imp]
  intro settled item
  have entry := settled v.category item.eventId
  rw [FeedView.newest_allItems_reset] at entry
  rw [mem, entry, h.filter_eq_some_iff, FeedView.category_reset]

/-- A `Reset` leaves the backlog right exactly if its items with one id are of one kind. -/
theorem settled_reset_iff : (w.step (.reset items)).Settled ↔ w.Fits (.reset items) := by
  have newest : (w.step (.reset items)).Settled ↔ ∀ category eventId n,
      ((items.filter (matchKey w.view.filterKey)).filter fun i =>
        decide (i.eventId = eventId)).argmax FeedItem.timestamp = some n →
      ∀ x ∈ items.filter (matchKey w.view.filterKey), decide (x.eventId = eventId) = true →
        matchCategory category x = true → matchCategory category n = true := by
    refine forall_congr' fun category => forall_congr' fun eventId => ?_
    rw [← argmax_filter_and_iff]
    exact Eq.congr_left (FeedView.newest_allItems_reset items category eventId)
  rw [newest]
  constructor
  · intro carries a ha b hb keyA keyB same
    have memA := List.mem_filter.2 ⟨ha, keyA⟩
    have memB := List.mem_filter.2 ⟨hb, keyB⟩
    cases found : ((items.filter (matchKey w.view.filterKey)).filter fun i =>
        decide (i.eventId = a.eventId)).argmax FeedItem.timestamp with
    | none =>
      rw [List.argmax_eq_none, List.filter_eq_nil_iff] at found
      exact absurd (decide_eq_true rfl) (found a memA)
    | some n =>
      have kindOf : ∀ x ∈ items.filter (matchKey w.view.filterKey), x.eventId = a.eventId →
          x.kind = n.kind := by
        intro x mem id
        have shows := carries x.kind a.eventId n found x mem (decide_eq_true id)
          (matchCategory_iff.2 (.inr rfl))
        exact (matchCategory_iff.1 shows).resolve_left x.kind_ne_all
      exact (kindOf a memA rfl).trans (kindOf b memB same.symm).symm
  · intro kinds category eventId n found x mem id shows
    obtain ⟨memN, idN⟩ := List.mem_filter.1 (List.argmax_mem found)
    obtain ⟨hx, keyX⟩ := List.mem_filter.1 mem
    obtain ⟨hn, keyN⟩ := List.mem_filter.1 memN
    have same : x.eventId = n.eventId :=
      (of_decide_eq_true id).trans (of_decide_eq_true idN).symm
    rw [matchCategory_iff] at shows ⊢
    rwa [← kinds x hx n hn keyX keyN same]

/-! ### A message that pushes an item -/

theorem allItems_push {v : FeedView Digest} (key : matchKey v.filterKey item = true) :
    (v.push item).allItems = v.backlogWith item := by
  unfold FeedView.push
  rw [key]
  split_ifs <;> first | rfl | contradiction

/-- Pushing an item leaves the backlog right exactly if the item supersedes its other entries. -/
theorem settled_push_iff (settled : w.Settled) (key : matchKey w.view.filterKey item = true) :
    (w.step (.push item)).Settled ↔ w.view.Supersedes item := by
  have entries : (w.step (.push item)).Settled ↔ ∀ category eventId,
      FeedView.newest category eventId (w.view.backlogWith item) =
        (Function.update w.latest item.eventId (some item) eventId).filter
          (matchCategory category) := by
    have latest : (w.step (.push item)).latest =
        Function.update w.latest item.eventId (some item) := if_pos key
    have backlog : (w.step (.push item)).view.allItems = w.view.backlogWith item :=
      allItems_push key
    rw [Settled, latest, backlog]
  rw [entries, ← FeedView.newest_backlogWith_self]
  constructor
  · intro all category
    rw [all category item.eventId, Function.update_self]
  · intro self category eventId
    by_cases same : eventId = item.eventId
    · rw [same, self, Function.update_self]
    · rw [Function.update_of_ne same, ← settled category eventId]
      exact FeedView.newest_backlogWith_of_ne (Ne.symm same) category

theorem listed_push {category : FeedCategory} (key : matchKey w.view.filterKey item = true)
    (i : FeedItem Digest) : (w.step (.push item)).Listed category i ↔
      if i.eventId = item.eventId then i = item ∧ matchCategory category item = true
      else w.Listed category i := by
  have latest : (w.step (.push item)).latest =
      Function.update w.latest item.eventId (some item) := if_pos key
  have filterKey : (w.step (.push item)).view.filterKey = w.view.filterKey :=
    (FeedView.push_filter w.view item).1
  rw [Listed, latest, filterKey]
  split_ifs with same
  · rw [same, Function.update_self, Option.some.injEq]
    constructor
    · rintro ⟨rfl, -, matches'⟩
      exact ⟨rfl, matches'⟩
    · rintro ⟨rfl, matches'⟩
      exact ⟨rfl, key, matches'⟩
  · rw [Function.update_of_ne same, Listed]

/-- Pushing an item that passes the key filter. -/
theorem Recorded.faithful_push_iff (h : w.Recorded) (h' : (w.step (.push item)).Recorded)
    (faithful : w.Faithful) (key : matchKey w.view.filterKey item = true) :
    (w.step (.push item)).Faithful ↔ w.view.Supersedes item ∧ w.view.InPlace item := by
  obtain ⟨sorted, shown, settled⟩ := h.faithful_iff.1 faithful
  have category : (w.step (.push item)).view.category = w.view.category :=
    (FeedView.push_filter w.view item).2
  have listed : ∀ i, (w.step (.push item)).Listed w.view.category i ↔
      if i.eventId = item.eventId then i = item ∧ matchCategory w.view.category item = true
      else i ∈ w.view.items := by
    intro i
    rw [listed_push key, shown]
  rw [h'.faithful_iff, settled_push_iff settled key, category, ← and_assoc, and_comm]
  refine and_congr_right fun _ => ?_
  simp only [listed]
  exact h.dedup.items_push_iff sorted key

/-! ### Every message -/

theorem keyed_push {v : FeedView Digest} (keyed : ∀ i ∈ v.allItems, matchKey v.filterKey i = true) :
    ∀ i ∈ (v.push item).allItems, matchKey (v.push item).filterKey i = true := by
  intro i mem
  rw [(FeedView.push_filter v item).1]
  by_cases key : matchKey v.filterKey item = true
  · rw [allItems_push key, FeedView.backlogWith] at mem
    split_ifs at mem
    · rcases mem_modifyFirst mem with old | ⟨-, -, rfl⟩
      · exact keyed i old
      · exact key
    · rw [(insertNewest_perm FeedItem.timestamp item v.allItems).mem_iff] at mem
      rcases List.mem_cons.1 mem with rfl | old
      · exact key
      · exact keyed i old
  · have same : v.push item = v := by
      unfold FeedView.push
      simp [key]
    rw [same] at mem
    exact keyed i mem

theorem Recorded.step (h : w.Recorded) (msg : FeedViewMsg Digest) : (w.step msg).Recorded := by
  have dedup := h.dedup.update msg
  cases msg with
  | push item =>
    refine ⟨dedup, keyed_push h.keyed, fun eventId i last => ?_⟩
    have filterKey : (w.view.update (.push item)).filterKey = w.view.filterKey :=
      (FeedView.push_filter w.view item).1
    simp only [Fed.step, record, filterKey] at last ⊢
    split_ifs at last with key
    · by_cases same : eventId = item.eventId
      · rw [same, Function.update_self] at last
        cases last
        exact ⟨same.symm, key⟩
      · rw [Function.update_of_ne same] at last
        exact h.latest eventId i last
    · exact h.latest eventId i last
  | reset items =>
    refine ⟨dedup, FeedView.keyed_reset items, fun eventId i last => ?_⟩
    have filterKey : (w.view.update (.reset items)).filterKey = w.view.filterKey :=
      FeedView.filterKey_reset items
    simp only [Fed.step, filterKey]
    obtain ⟨mem, id⟩ := List.mem_filter.1 (List.argmax_mem last)
    exact ⟨of_decide_eq_true id, (List.mem_filter.1 mem).2⟩
  | setCategory category =>
    refine ⟨dedup, FeedView.keyed_reset w.view.allItems, fun eventId i last => ?_⟩
    have filterKey : (w.view.update (.setCategory category)).filterKey = w.view.filterKey :=
      FeedView.filterKey_reset w.view.allItems
    simp only [Fed.step, filterKey]
    exact h.latest eventId i last
  | _ => exact ⟨dedup, h.keyed, h.latest⟩

/-- A card that is marked shows the same item. -/
theorem items_setRead (v : FeedView Digest) (eventId : Digest) (read : Bool) :
    (v.setRead eventId read).items = v.items :=
  map_modifyFirst (f := fun c : FeedCard Digest => { c with read := read }) (fun _ _ => rfl) _

/-- Marking a card changes no item. -/
theorem Faithful.setRead (h : w.Faithful) {eventId : Digest} {read : Bool}
    (recorded : Recorded ⟨w.view.setRead eventId read, w.latest⟩) :
    Faithful ⟨w.view.setRead eventId read, w.latest⟩ where
  once := recorded.dedup.nodup
  newestFirst := by
    rw [items_setRead]
    exact h.newestFirst
  shown item := by
    rw [items_setRead]
    exact h.shown item
  rebuilt := h.rebuilt

theorem Recorded.setCategory (h : w.Recorded) (settled : w.Settled) (category : FeedCategory) :
    (w.step (.setCategory category)).Settled := by
  intro category' eventId
  have entry := FeedView.newest_allItems_reset (v := { w.view with category := category })
    w.view.allItems category' eventId
  rw [h.filter_allItems] at entry
  exact entry.trans (settled category' eventId)

/-- A message keeps the feed faithful exactly if it fits. -/
theorem Recorded.faithful_step_iff (h : w.Recorded) (faithful : w.Faithful)
    (msg : FeedViewMsg Digest) : (w.step msg).Faithful ↔ w.Fits msg := by
  have h' := h.step msg
  obtain ⟨sorted, shown, settled⟩ := h.faithful_iff.1 faithful
  cases msg with
  | push item =>
    by_cases key : matchKey w.view.filterKey item = true
    · rw [h.faithful_push_iff h' faithful key]
      exact ⟨fun fits _ => fits, fun fits => fits key⟩
    · have same : w.step (.push item) = w := by
        simp [Fed.step, FeedView.update, FeedView.push, record, key]
      rw [same]
      exact iff_of_true faithful fun passes => absurd passes key
  | reset items => exact (faithful_reset_iff h').trans settled_reset_iff
  | setCategory category =>
    exact iff_of_true ((faithful_reset_iff h').2 (h.setCategory settled category)) trivial
  | markRead eventId => exact iff_of_true (faithful.setRead h') trivial
  | cardActivated eventId => exact iff_of_true (faithful.setRead h') trivial
  | cardSetRead eventId read => exact iff_of_true (faithful.setRead h') trivial

omit [DecidableEq Digest] in
theorem recorded_opened (filterKey : Option String) :
    (opened filterKey : Fed Digest).Recorded where
  dedup := ⟨List.nodup_nil, by simp [opened, FeedView.cardIds]⟩
  keyed i mem := absurd mem List.not_mem_nil
  latest eventId i last := by cases last

theorem faithful_opened (filterKey : Option String) : (opened filterKey : Fed Digest).Faithful := by
  refine (recorded_opened filterKey).faithful_iff.2 ⟨.nil, fun item => ?_, fun _ _ => rfl⟩
  refine iff_of_false List.not_mem_nil ?_
  rintro ⟨last, -⟩
  cases last

end Fed

/-! ## Runs -/

section Runs

variable [DecidableEq Digest] (filterKey : Option String) (msgs : List (FeedViewMsg Digest))

/-- The record does not change what the feed does, and the first items are a `Reset`. -/
theorem view_exec (initial : List (FeedItem Digest)) :
    (exec Fed.step (.opened filterKey) (.reset initial :: msgs)).view =
      exec FeedView.update (FeedView.init filterKey initial) msgs := by
  have follows : ∀ (msgs : List (FeedViewMsg Digest)) (w : Fed Digest),
      (exec Fed.step w msgs).view = exec FeedView.update w.view msgs := by
    intro msgs
    induction msgs with
    | nil => exact fun _ => rfl
    | cons msg msgs ih => exact fun w => ih (w.step msg)
  exact follows msgs _

end Runs

/-- The item of a transit. Its timestamp moves with the clock. -/
def transitItem (timestamp : ℕ) : FeedItem Bytes :=
  ⟨[1], timestamp, false, .transitActive "transit:sun_trine_moon" 2460000 2460010 1 (some "")⟩

end Zodia.App
