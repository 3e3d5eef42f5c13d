import Zodia.App.TransitTicker
import Zodia.App.FeedItems
import Zodia.Core.HouseTransits
import Zodia.Core.Transits

/-!
# The ticker and the Sky feed

A tick turns everything that the sky does to the chart into items of the feed, and after a
reading was published the item of its key is made again. Items of one tick have different ids,
whatever their windows are, so the feed gives each of them a card of its own.

## Main definitions

* `activeItems` — the items of a tick.
* `activeItemForKey` — the item that is made again for a key.

## Main results

* `map_interpKey_activeItems` — one item for each key of the picture.
* `sky_tick` — what the feed shows after a tick.
-/

namespace Zodia.App

open Lib Store Zodia.Core

variable {Digest : Type}

/-! ## Items -/

/-- Seconds of the epoch, as many as 64 bits hold. -/
def jdnToUnix (jdn : ℚ) : ℕ := min ⌊max ((jdn - 2440587.5) * 86400) 0⌋₊ (2 ^ 64 - 1)

/-- What is left of a signed number in 64 bits. -/
def wrapI64 (n : ℤ) : ℤ := n.bmod (2 ^ 64)

/-- Soon-ending is high, far-ending is low. -/
def jdnToUnixInverted (nowUnix : ℕ) (endJdn : ℚ) : ℕ :=
  let score := wrapI64 (2 * wrapI64 nowUnix - wrapI64 (jdnToUnix endJdn))
  (max score 0).toNat

section Build

variable (hash : Hash Digest) (nowUnix : ℕ)

/-- The item of something that is active, under an id of its domain. -/
def buildActive (domain key : String) (startJdn endJdn : ℚ) (payload : FeedPayload Digest) :
    FeedItem Digest :=
  ⟨stableEventId hash domain key true startJdn, jdnToUnixInverted nowUnix endJdn, false, payload⟩

def buildPersonalActive (transitKey : String) (startJdn endJdn orbDeg : ℚ)
    (baseline : Option String) : FeedItem Digest :=
  buildActive hash nowUnix "transit" transitKey startJdn endJdn
    (.transitActive transitKey startJdn endJdn orbDeg baseline)

def buildGlobalActive (aspectKey : String) (startJdn endJdn orbDeg : ℚ)
    (baseline : Option String) : FeedItem Digest :=
  buildActive hash nowUnix "sky" aspectKey startJdn endJdn
    (.skyAspectActive aspectKey startJdn endJdn orbDeg baseline)

def buildHouseActive (transitKey : String) (startJdn endJdn : ℚ) (baseline : Option String) :
    FeedItem Digest :=
  buildActive hash nowUnix "house" transitKey startJdn endJdn
    (.houseTransitActive transitKey startJdn endJdn baseline)

end Build

/-- A key as it is written on an item. -/
def keyString (k : InterpKey) : String := String.ofList k.toSig

section Tick

-- `resolveTopBody` is the text that lists and cards have for a key at the tick.
variable (hash : Hash Digest) (computePositions : ℚ → Option PlanetPositions)
  (natal : PlanetPositions) (houses : HouseSystem) (resolveTopBody : InterpKey → String)

/-- Where a planet is at each time. -/
def lonOf (p : Planet) (t : ℚ) : Option ℚ := (computePositions t).bind fun positions => positions p

/-- Every currently in-orb transit, sky aspect and house transit. -/
def activeItems (t : Tick) : List (FeedItem Digest) :=
  match transitsAt computePositions natal houses t.jdn with
  | none => []
  | some set =>
    let nowUnix := ⌊t.secs⌋₊
    let personal := set.transitAspects.filterMap fun ta => do
      let natalLon ← natal ta.natalBody
      let (startJdn, endJdn) :=
        transitWindow (lonOf computePositions ta.transiting) natalLon ta.kind t.jdn
      return buildPersonalActive hash nowUnix (keyString ta.interpKey) startJdn endJdn ta.orb
        (some (resolveTopBody ta.interpKey))
    let global := set.skyAspects.filterMap fun a => do
      let bLon ← set.sky a.bodyB
      let (startJdn, endJdn) :=
        transitWindow (lonOf computePositions a.bodyA) bLon a.kind t.jdn
      let skyKey := .skyAspect a.sig
      return buildGlobalActive hash nowUnix (keyString skyKey) startJdn endJdn a.orb
        (some (resolveTopBody skyKey))
    let house := set.houseTransits.map fun ht =>
      let (startJdn, endJdn) :=
        houseTransitWindow (lonOf computePositions ht.transiting) ht.transiting houses t.jdn
      buildHouseActive hash nowUnix (keyString ht.interpKey) startJdn endJdn
        (some (resolveTopBody ht.interpKey))
    personal ++ global ++ house

/-- The currently active item, if any, of a key. -/
def activeItemForKey (t : Tick) (targetSig : String) : Option (FeedItem Digest) :=
  (activeItems hash computePositions natal houses resolveTopBody t).find? fun item =>
    item.interpKey = targetSig

end Tick

/-! ## One item for each key -/

/-- The keys that can be active. -/
def Celestial : InterpKey → Prop
  | .transit .. | .skyAspect _ | .houseTransit .. => True
  | _ => False

/-- The domain in which the id of a key's item is made. -/
def domainOf : InterpKey → String
  | .transit .. => "transit"
  | .skyAspect _ => "sky"
  | _ => "house"

theorem keyString_inj {k k' : InterpKey} (parses : k.Parses) (parses' : k'.Parses)
    (same : keyString k = keyString k') : k = k' := by
  have read := congrArg (fun s : String => parseInterpSig s.toList) same
  simp only [keyString, String.toList_ofList, sigs_canonical.2 _ parses,
    sigs_canonical.2 _ parses', Option.some.injEq] at read
  exact read

/-- No key of another kind is written like one that can be active. -/
theorem keyString_inj_celestial {k k' : InterpKey} (celestial : Celestial k')
    (same : keyString k = keyString k') : k = k' := by
  have parses' : k'.Parses := by
    cases k' with
    | placement p sign house => exact celestial.elim
    | placementAngle angle sign => exact celestial.elim
    | _ => trivial
  refine keyString_inj ?_ parses' same
  have tags := congrArg (fun s : String => (splitOnce ':' s.toList).map Prod.fst) same
  simp only [keyString, String.toList_ofList, InterpKey.toSig, InterpKey.sigWith_eq,
    splitOnce_append k.not_mem_tag, splitOnce_append k'.not_mem_tag, Option.map_some,
    Option.some.injEq] at tags
  cases k with
  | placement p sign house => cases k' <;> first | exact celestial.elim | cases tags
  | placementAngle angle sign => cases k' <;> first | exact celestial.elim | cases tags
  | _ => trivial

section Tick

variable {hash : Hash Digest} {computePositions : ℚ → Option PlanetPositions}
  {natal : PlanetPositions} {houses : HouseSystem} {resolveTopBody : InterpKey → String}
  {t : Tick} {set : TransitSet}

theorem map_filterMap_eq_map {α β γ : Type*} {l : List α} {f : α → Option β} {g : β → γ}
    {h : α → γ} (each : ∀ x ∈ l, (f x).map g = some (h x)) : (l.filterMap f).map g = l.map h := by
  rw [List.map_filterMap, List.filterMap_congr each, List.filterMap_eq_map']

/-- Each key of the picture has one item, and nothing else has. -/
theorem map_interpKey_activeItems
    (computed : transitsAt computePositions natal houses t.jdn = some set) :
    (activeItems hash computePositions natal houses resolveTopBody t).map FeedItem.interpKey =
      set.skyKeys.map keyString := by
  rw [activeItems, computed]
  obtain ⟨sky, -, built⟩ := Option.bind_eq_some_iff.1 computed
  obtain rfl := Option.some.inj built
  simp only [TransitSet.skyKeys, List.map_append, List.map_map]
  congr 1
  · congr 1
    · refine map_filterMap_eq_map fun ta mem => ?_
      obtain ⟨a, -, b, here, -⟩ := aspectBetween_eq_some.1 (mem_computeTransitAspects.1 mem)
      rw [Option.mem_def.1 here]
      rfl
    · refine map_filterMap_eq_map fun aspect mem => ?_
      obtain ⟨a, -, b, here, -⟩ := aspectBetween_eq_some.1 (mem_computeAspectsFrom.1 mem).2
      simp only [buildTransitSet, Option.mem_def.1 here]
      rfl

/-- Each item has the id that its domain, its key and the start of its window make. -/
theorem exists_key_of_mem_activeItems {item : FeedItem Digest}
    (mem : item ∈ activeItems hash computePositions natal houses resolveTopBody t) :
    ∃ k start, Celestial k ∧ item.interpKey = keyString k ∧
      item.eventId = stableEventId hash (domainOf k) (keyString k) true start := by
  rw [activeItems] at mem
  cases computed : transitsAt computePositions natal houses t.jdn with
  | none => simp [computed] at mem
  | some set =>
    simp only [computed, List.mem_append, List.mem_filterMap, List.mem_map,
      Option.bind_eq_bind, Option.bind_eq_some_iff] at mem
    rcases mem with (⟨ta, -, lon, -, built⟩ | ⟨a, -, lon, -, built⟩) | ⟨ht, -, rfl⟩
    · obtain rfl := Option.some.inj built
      exact ⟨ta.interpKey, _, trivial, rfl, rfl⟩
    · obtain rfl := Option.some.inj built
      exact ⟨.skyAspect a.sig, _, trivial, rfl, rfl⟩
    · exact ⟨ht.interpKey, _, trivial, rfl, rfl⟩

/-! ## Ids -/

/-- Equal ids are made of one string for the domain and the key together. -/
theorem append_key_of_stableEventId (hash_inj : Function.Injective hash)
    {domain key domain' key' : String} {x y : ℚ}
    (same : stableEventId hash domain key true x = stableEventId hash domain' key' true y) :
    domain ++ key = domain' ++ key' := by
  have sizes (n : ℤ) : (i64LeBytes n).length = 8 := by simp [i64LeBytes]
  have days := List.append_inj' (hash_inj same) (by rw [sizes, sizes])
  have front := List.append_cancel_right days.1
  rw [← utf8_append, ← utf8_append] at front
  exact utf8_inj front

/-- The domains start with different letters, so that the keys cannot make up for them. -/
theorem domains_apart : ∀ d ∈ ["transit", "sky", "house"], d.toList.head?.isSome ∧
    ∀ d' ∈ ["transit", "sky", "house"], d.toList.head? = d'.toList.head? → d = d' := by
  decide

theorem domainOf_mem (k : InterpKey) : domainOf k ∈ ["transit", "sky", "house"] := by
  cases k <;> simp [domainOf]

theorem eq_of_domain_append {k k' : InterpKey} {s s' : String}
    (same : domainOf k ++ s = domainOf k' ++ s') : s = s' := by
  obtain ⟨some', apart⟩ := domains_apart _ (domainOf_mem k)
  have heads : (domainOf k).toList.head? = (domainOf k').toList.head? := by
    have first := congrArg (fun s : String => s.toList.head?) same
    simp only [String.toList_append, List.head?_append] at first
    rwa [Option.or_of_isSome some',
      Option.or_of_isSome (domains_apart _ (domainOf_mem k')).1] at first
  rw [apart _ (domainOf_mem k') heads, ← String.toList_inj, String.toList_append,
    String.toList_append] at same
  exact String.toList_inj.1 (List.append_cancel_left same)

theorem celestial_of_mem_skyKeys
    (computed : transitsAt computePositions natal houses t.jdn = some set) {k : InterpKey}
    (mem : k ∈ set.skyKeys) : Celestial k := by
  have holds := (mem_skyKeys computed k).1 mem
  cases k with
  | transit p q kind => trivial
  | skyAspect sig => trivial
  | houseTransit p house => trivial
  | _ => exact holds.elim

theorem nodup_interpKey_activeItems :
    ((activeItems hash computePositions natal houses resolveTopBody t).map
      FeedItem.interpKey).Nodup := by
  cases computed : transitsAt computePositions natal houses t.jdn with
  | none => simp [activeItems, computed]
  | some set =>
    rw [map_interpKey_activeItems computed]
    exact (nodup_skyKeys computed).map_on fun k _ k' mem same =>
      keyString_inj_celestial (celestial_of_mem_skyKeys computed mem) same

/-- Whatever their windows are, the items of a tick have different ids. -/
theorem nodup_eventId_activeItems (hash_inj : Function.Injective hash) :
    ((activeItems hash computePositions natal houses resolveTopBody t).map
      FeedItem.eventId).Nodup := by
  have keys : ((activeItems hash computePositions natal houses resolveTopBody t).map
      FeedItem.interpKey).Nodup :=
    nodup_interpKey_activeItems
  rw [List.Nodup, List.pairwise_map] at keys ⊢
  refine keys.imp_of_mem fun mem mem' ne same => ne ?_
  obtain ⟨k, start, -, key, id⟩ := exists_key_of_mem_activeItems mem
  obtain ⟨k', start', -, key', id'⟩ := exists_key_of_mem_activeItems mem'
  rw [id, id'] at same
  rw [key, key']
  exact eq_of_domain_append (append_key_of_stableEventId hash_inj same)

theorem activeItemForKey_eq_some_iff {targetSig : String} {item : FeedItem Digest} :
    activeItemForKey hash computePositions natal houses resolveTopBody t targetSig = some item ↔
      item ∈ activeItems hash computePositions natal houses resolveTopBody t ∧
        item.interpKey = targetSig :=
  Table.find?_eq_some (t := ⟨_, nodup_interpKey_activeItems⟩)

/-- An item is made again exactly for the keys that hold now. -/
theorem isSome_activeItemForKey_iff (k : InterpKey) :
    (activeItemForKey hash computePositions natal houses resolveTopBody t (keyString k)).isSome ↔
      ∃ sky, computePositions t.jdn = some sky ∧ InForce sky natal houses k := by
  rw [Option.isSome_iff_exists]
  simp only [activeItemForKey_eq_some_iff]
  cases computed : transitsAt computePositions natal houses t.jdn with
  | none => simp [activeItems, computed, transitsAt_eq_none.1 computed]
  | some set =>
    have listed : (∃ item ∈ activeItems hash computePositions natal houses resolveTopBody t,
        item.interpKey = keyString k) ↔ k ∈ set.skyKeys := by
      rw [← List.mem_map, map_interpKey_activeItems computed, List.mem_map]
      constructor
      · rintro ⟨k', mem, same⟩
        exact keyString_inj_celestial (celestial_of_mem_skyKeys computed mem) same.symm ▸ mem
      · exact fun mem => ⟨k, mem, rfl⟩
    rw [listed, mem_skyKeys computed, transitsAt_eq_some computed]
    simp

end Tick

/-! ## The feed after a tick -/

namespace FeedView

variable [DecidableEq Digest] {v : FeedView Digest} {item : FeedItem Digest}

theorem exists_mem_modifyFirst {α : Type*} {p : α → Bool} {f : α → α} {l : List α} {x : α}
    (mem : x ∈ l) (hx : p x = true) : ∃ y ∈ l, f y ∈ modifyFirst p f l := by
  induction l with
  | nil => cases mem
  | cons y l ih => grind [modifyFirst]

theorem mem_modifyFirst_of_not {α : Type*} {p : α → Bool} {f : α → α} {l : List α} {x : α}
    (mem : x ∈ l) (hx : p x = false) : x ∈ modifyFirst p f l := by
  induction l with
  | nil => cases mem
  | cons y l ih => grind [modifyFirst]

/-- A pushed item is on a card. -/
theorem Deduplicated.exists_card_push (h : v.Deduplicated) (key : v.filterKey = none)
    (category : matchCategory v.category item = true) :
    ∃ c ∈ (v.push item).cards, c.item = item := by
  have keyed : matchKey v.filterKey item = true := by rw [key]; rfl
  unfold FeedView.push
  rw [keyed, category]
  by_cases shown : item.eventId ∈ v.known
  · obtain ⟨card, mem, same⟩ := List.mem_map.1 ((h.known _).1 shown)
    obtain ⟨c, -, updated⟩ := exists_mem_modifyFirst
      (p := fun c => decide (c.item.eventId = item.eventId)) (f := fun c => { c with item := item })
      mem (decide_eq_true same)
    simp only [shown, Bool.not_true, Bool.false_eq_true, if_false, if_true]
    exact ⟨_, updated, rfl⟩
  · simp only [shown, Bool.not_true, Bool.false_eq_true, if_false]
    exact ⟨⟨item, false⟩, (insertNewest_perm _ _ _).mem_iff.2 List.mem_cons_self, rfl⟩

/-- A card of another id stays as it is. -/
theorem mem_cards_push {c : FeedCard Digest} (mem : c ∈ v.cards)
    (other : c.item.eventId ≠ item.eventId) : c ∈ (v.push item).cards := by
  unfold FeedView.push
  split_ifs
  · exact mem
  · exact mem
  · exact mem_modifyFirst_of_not mem (decide_eq_false other)
  · exact (insertNewest_perm (fun c : FeedCard Digest => c.item.timestamp) ⟨item, false⟩
      v.cards).mem_iff.2 (List.mem_cons_of_mem _ mem)

/-- Items of different ids that are pushed are all on cards. -/
theorem Deduplicated.exists_card_pushes (h : v.Deduplicated) (key : v.filterKey = none)
    {items : List (FeedItem Digest)} (ids : (items.map FeedItem.eventId).Nodup)
    (mem : item ∈ items) (category : matchCategory v.category item = true) :
    ∃ c ∈ (exec FeedView.push v items).cards, c.item = item := by
  induction items generalizing v with
  | nil => cases mem
  | cons next items ih =>
    obtain ⟨fresh, rest⟩ := List.nodup_cons.1 ids
    obtain ⟨sameKey, sameCategory⟩ := push_filter v next
    rcases List.mem_cons.1 mem with rfl | later
    · obtain ⟨c, here, rfl⟩ := h.exists_card_push key category
      have stays : ∀ items : List (FeedItem Digest), c.item.eventId ∉ items.map FeedItem.eventId →
          ∀ v : FeedView Digest, c ∈ v.cards → c ∈ (exec FeedView.push v items).cards := by
        intro items
        induction items with
        | nil => exact fun _ v mem => mem
        | cons next items ih =>
          intro fresh v mem
          obtain ⟨other, fresh⟩ := not_or.1 (List.mem_cons.not.1 fresh)
          exact ih fresh _ (mem_cards_push mem other)
      exact ⟨c, stays items fresh _ here, rfl⟩
    · exact ih (h.push next) (sameKey.trans key) rest later (sameCategory.symm ▸ category)

theorem update_filterKey (v : FeedView Digest) (msg : FeedViewMsg Digest) :
    (v.update msg).filterKey = v.filterKey := by
  have appended (items : List (FeedItem Digest)) (v : FeedView Digest) :
      (items.foldl FeedView.append v).filterKey = v.filterKey := by
    induction items generalizing v with
    | nil => rfl
    | cons item items ih =>
      rw [List.foldl_cons, ih]
      unfold FeedView.append
      split_ifs <;> rfl
  cases msg with
  | push item => exact (push_filter v item).1
  | reset items => exact appended _ _
  | setCategory category => exact appended _ _
  | _ => rfl

end FeedView

section Tick

variable [DecidableEq Digest] {hash : Hash Digest}

/-- **After a tick each item is on one card.** In any feed without a filter, whatever came before,
every item of the tick that the category shows is on one card, with what the tick says of it. The
item that is made again for a key is the one of this key, there is one exactly when the key holds
now, and pushing it leaves the cards of all other ids as they are. -/
theorem sky_tick (hash_inj : Function.Injective hash)
    (computePositions : ℚ → Option PlanetPositions) (natal : PlanetPositions)
    (houses : HouseSystem) (resolveTopBody : InterpKey → String) (t : Tick)
    (initial : List (FeedItem Digest)) (msgs : List (FeedViewMsg Digest)) :
    let items := activeItems hash computePositions natal houses resolveTopBody t
    let view := exec FeedView.update (FeedView.init none initial) msgs
    (∀ item ∈ items, matchCategory view.category item = true →
      ∃ c ∈ (exec FeedView.push view items).cards, c.item = item ∧
        ∀ c' ∈ (exec FeedView.push view items).cards, c'.item.eventId = item.eventId → c' = c) ∧
    (∀ targetSig item,
      activeItemForKey hash computePositions natal houses resolveTopBody t targetSig = some item ↔
        item ∈ items ∧ item.interpKey = targetSig) ∧
    (∀ k : InterpKey,
      (activeItemForKey hash computePositions natal houses resolveTopBody t (keyString k)).isSome ↔
        ∃ sky, computePositions t.jdn = some sky ∧ InForce sky natal houses k) ∧
    ∀ item : FeedItem Digest, ∀ c ∈ view.cards, c.item.eventId ≠ item.eventId →
      c ∈ (view.push item).cards := by
  intro items view
  have dedup : view.Deduplicated := FeedView.Deduplicated.run none initial msgs
  have key : view.filterKey = none :=
    exec_keeps (fun v : FeedView Digest => v.filterKey = none)
      (fun v msg h => (FeedView.update_filterKey v msg).trans h)
      (FeedView.update_filterKey ⟨none, .all, [], ∅, []⟩ (.reset initial)) msgs
  refine ⟨fun item mem category => ?_, fun targetSig item => activeItemForKey_eq_some_iff,
    isSome_activeItemForKey_iff, fun item c mem other => FeedView.mem_cards_push mem other⟩
  obtain ⟨c, shown, same⟩ := dedup.exists_card_pushes key
    (nodup_eventId_activeItems hash_inj) mem category
  refine ⟨c, shown, same, fun c' shown' id => ?_⟩
  exact List.inj_on_of_nodup_map (dedup.pushes items).nodup shown' shown (id.trans (same ▸ rfl))

/-- With the sun where it was at birth, the key of the sun's return has an item. -/
theorem sky_tick_sunReturn :
    let sun : PlanetPositions := fun p => if p = .sun then some 0 else none
    (activeItemForKey id (fun _ => some sun) sun .stub (fun _ => "") eveningTick
      (keyString (.transit .sun .sun .conjunction))).isSome := by
  intro sun
  have near : WithinOrb .conjunction (angularSeparation 0 0) := by decide +kernel
  exact ((sky_tick Function.injective_id (fun _ => some sun) sun .stub (fun _ => "") eveningTick []
    []).2.2.1 _).2 ⟨sun, rfl, 0, rfl, 0, rfl, near⟩

end Tick

end Zodia.App
