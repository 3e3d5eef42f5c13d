import Mathlib.Data.List.ReduceOption
import Mathlib.Data.Rat.Defs
import Mathlib.Algebra.Order.Ring.Rat
import Zodia.App.FeedItems
import Zodia.Lib.Text

/-!
# Cards that are read by looking at them

A timer looks at the rows of a feed every so often. It keeps, by the name of the
row, since when each row has been in view, and marks a card as read when that is
long enough ago.

## Main definitions

* `tick` — one scan of the rows.
* `dwellAfter`, `sentAt` — the map after a history of scans, and what a scan after it sends.
* `Stretch` — a card in view at every scan since a first one, and not sent since.

## Main results

* `marked_iff` — a scan marks a card exactly if a stretch of the card is long enough.
-/

namespace Zodia.App.Dwell

open Lib

/-! ## Names of rows -/

/-- The text of a byte in hexadecimal; a sign may stand for its first digit. -/
def fromStrRadix16 (hi lo : Char) : Option UInt8 :=
  if hi = '+' then (hexValue lo).map UInt8.ofNat
  else do
    let h ← hexValue hi
    let l ← hexValue lo
    return UInt8.ofNat (16 * h + l)

/-- The bytes that pairs of characters stand for. -/
def decodePairs : List Char → Option Bytes
  | hi :: lo :: rest => do
    let b ← fromStrRadix16 hi lo
    let bytes ← decodePairs rest
    return b :: bytes
  | _ => some []

def decodeEventId (name : List Char) : Option Bytes32 :=
  if name.length ≠ 64 then none
  else do
    let out ← decodePairs name
    if h : out.length = 32 then some ⟨out.toArray, size_toArray_bytes h⟩ else none

/-- A row of the list, with the edges its layout gives it. -/
structure Row where
  eventId : Bytes32
  bounds : Option (ℚ × ℚ)

def Row.widgetName (row : Row) : List Char := hexEncode row.eventId.toList

theorem length_hexEncode (bytes : Bytes) : (hexEncode bytes).length = 2 * bytes.length := by
  induction bytes with
  | nil => rfl
  | cons b bytes ih =>
    change (hexEncode bytes).length + 2 = _
    grind

theorem decodePairs_hexEncode (bytes : Bytes) : decodePairs (hexEncode bytes) = some bytes := by
  induction bytes with
  | nil => rfl
  | cons b bytes ih =>
    have hb : b.toNat < 256 := b.toNat_lt
    have hi := hexValue_digitChar (show b.toNat / 16 < 16 by omega)
    have lo := hexValue_digitChar (show b.toNat % 16 < 16 by omega)
    have digit : Nat.digitChar (b.toNat / 16) ≠ '+' := by
      intro sign
      have none : hexValue '+' = none := by decide
      grind
    have whole : UInt8.ofNat (16 * (b.toNat / 16) + b.toNat % 16) = b := by
      rw [show 16 * (b.toNat / 16) + b.toNat % 16 = b.toNat by omega, UInt8.ofNat_toNat]
    change decodePairs (_ :: _ :: hexEncode bytes) = _
    simp only [decodePairs, fromStrRadix16, digit, if_false, hi, lo, ih, whole,
      Option.bind_eq_bind, Option.bind_some, Option.pure_def]

theorem Row.length_widgetName (row : Row) : row.widgetName.length = 64 := by
  simp [Row.widgetName, length_hexEncode]

theorem isEmpty_widgetName (row : Row) : row.widgetName.isEmpty = false := by
  have size := row.length_widgetName
  cases names : row.widgetName with
  | nil => simp [names] at size
  | cons c name => rfl

/-- A row is found again by its name. -/
theorem decodeEventId_widgetName (row : Row) : decodeEventId row.widgetName = some row.eventId := by
  have size := row.length_widgetName
  have bytes : decodePairs row.widgetName = some row.eventId.toList := decodePairs_hexEncode _
  simp only [decodeEventId, size, bytes, ne_eq, not_true_eq_false, if_false, Option.bind_eq_bind,
    Option.bind_some, Vector.length_toList, dif_pos, Option.some.injEq]
  exact Vector.toArray_inj.1 (Array.toArray_toList)

/-- The name of the row of a card. -/
def nameOf (eventId : Bytes32) : List Char := hexEncode eventId.toList

theorem nameOf_inj {eventId other : Bytes32} : nameOf eventId = nameOf other ↔ eventId = other := by
  constructor
  · intro names
    have decoded : decodeEventId (Row.widgetName ⟨eventId, none⟩) =
        decodeEventId (Row.widgetName ⟨other, none⟩) := congrArg decodeEventId names
    simpa only [decodeEventId_widgetName, Option.some.injEq] using decoded
  · exact congrArg nameOf

/-! ## The timer -/

/-- How long a card is in view before it counts as read. -/
def dwellAutoReadMs : ℕ := 1500

/-- What the timer sees: the viewport, the clock and the rows of the list, which are those of
different cards. -/
structure Scan where
  viewportTop : ℚ
  viewportBot : ℚ
  nowMs : ℕ
  rows : List Row
  distinct : (rows.map Row.eventId).Nodup

/-- The rows of a feed, in the order of its cards. -/
def feedScan (v : FeedView Bytes32) (h : v.Deduplicated)
    (bounds : Bytes32 → Option (ℚ × ℚ)) (viewportTop viewportBot : ℚ) (nowMs : ℕ) : Scan where
  viewportTop := viewportTop
  viewportBot := viewportBot
  nowMs := nowMs
  rows := v.cardIds.map fun id => ⟨id, bounds id⟩
  distinct := by simpa [Function.comp_def] using h.nodup

/-- Since when each row has been in view, by its name. -/
abbrev DwellMap := List Char → Option ℕ

def Scan.inView (scan : Scan) (row : Row) : Bool :=
  match row.bounds with
  | none => false
  | some (rowTop, rowBot) => decide (rowBot > scan.viewportTop) && decide (rowTop < scan.viewportBot)

/-- The pass of a scan over one row. -/
def Scan.visit (scan : Scan) (st : DwellMap × List Bytes32) (row : Row) :
    DwellMap × List Bytes32 :=
  let name := row.widgetName
  if name.isEmpty then st
  else if scan.inView row then
    let started := (st.1 name).getD scan.nowMs
    let dwell := Function.update st.1 name (some started)
    if scan.nowMs - started ≥ dwellAutoReadMs then
      match decodeEventId name with
      | some eventId => (Function.update dwell name none, st.2 ++ [eventId])
      | none => (dwell, st.2)
    else (dwell, st.2)
  else st

def Scan.stillVisible (scan : Scan) : List (List Char) :=
  (scan.rows.filter fun row => !row.widgetName.isEmpty && scan.inView row).map Row.widgetName

/-- One tick, with the cards it marks as read; there is nothing to scan while the feed is
detached. -/
def tick (scan : Option Scan) (dwell : DwellMap) : DwellMap × List Bytes32 :=
  match scan with
  | none => (dwell, [])
  | some scan =>
    let st := scan.rows.foldl scan.visit (dwell, [])
    (fun name => if name ∈ scan.stillVisible then st.1 name else none, st.2)

/-- The map after a history of ticks, the last one first. -/
def dwellAfter : List (Option Scan) → DwellMap
  | [] => fun _ => none
  | scan :: past => (tick scan (dwellAfter past)).1

/-- The cards that a tick after a history marks as read. -/
def sentAt (scan : Option Scan) (past : List (Option Scan)) : List Bytes32 :=
  (tick scan (dwellAfter past)).2

/-! ## One card -/

def Scan.Shows (scan : Scan) (eventId : Bytes32) : Prop :=
  ∃ row ∈ scan.rows, row.eventId = eventId ∧ scan.inView row = true

variable {scan : Scan} {eventId : Bytes32}

/-- The scan of a feed shows the cards of the feed that overlap the viewport. -/
theorem shows_feedScan {v : FeedView Bytes32} (h : v.Deduplicated)
    (bounds : Bytes32 → Option (ℚ × ℚ)) (viewportTop viewportBot : ℚ) (nowMs : ℕ) :
    (feedScan v h bounds viewportTop viewportBot nowMs).Shows eventId ↔
      eventId ∈ v.cardIds ∧ ∃ rowTop rowBot, bounds eventId = some (rowTop, rowBot) ∧
        viewportTop < rowBot ∧ rowTop < viewportBot := by
  simp only [Scan.Shows, feedScan, Scan.inView, List.mem_map]
  constructor
  · rintro ⟨row, ⟨id, mem, rfl⟩, rfl, view⟩
    refine ⟨mem, ?_⟩
    cases edges : bounds id with
    | none => simp [edges] at view
    | some edge =>
      simp only [edges, Bool.and_eq_true] at view
      exact ⟨edge.1, edge.2, rfl, of_decide_eq_true view.1, of_decide_eq_true view.2⟩
  · rintro ⟨mem, rowTop, rowBot, edges, below, above⟩
    refine ⟨⟨eventId, bounds eventId⟩, ⟨eventId, mem, rfl⟩, rfl, ?_⟩
    simp only [edges, Bool.and_eq_true]
    exact ⟨decide_eq_true below, decide_eq_true above⟩

/-- The card has been in view for long enough, by the map and the clock of a scan. -/
def Scan.Dwelt (scan : Scan) (dwell : DwellMap) (eventId : Bytes32) : Prop :=
  dwellAutoReadMs ≤ scan.nowMs - (dwell (nameOf eventId)).getD scan.nowMs

instance (dwell : DwellMap) : Decidable (scan.Dwelt dwell eventId) :=
  inferInstanceAs (Decidable (_ ≤ _))

theorem visit_eq (st : DwellMap × List Bytes32) (row : Row) :
    scan.visit st row =
      if scan.inView row = true then
        if scan.Dwelt st.1 row.eventId then
          (Function.update (Function.update st.1 (nameOf row.eventId)
            (some ((st.1 (nameOf row.eventId)).getD scan.nowMs))) (nameOf row.eventId) none,
            st.2 ++ [row.eventId])
        else (Function.update st.1 (nameOf row.eventId)
          (some ((st.1 (nameOf row.eventId)).getD scan.nowMs)), st.2)
      else st := by
  simp only [Scan.visit, isEmpty_widgetName, Bool.false_eq_true, if_false, decodeEventId_widgetName]
  rfl

/-- The pass over the row of another card. -/
theorem visit_of_ne {row : Row} (other : row.eventId ≠ eventId) (st : DwellMap × List Bytes32) :
    (scan.visit st row).1 (nameOf eventId) = st.1 (nameOf eventId) ∧
      (eventId ∈ (scan.visit st row).2 ↔ eventId ∈ st.2) := by
  have name : nameOf eventId ≠ nameOf row.eventId := fun same => other (nameOf_inj.1 same).symm
  rw [visit_eq]
  split_ifs <;> simp [name, other.symm]

theorem visit_self {row : Row} (own : row.eventId = eventId) (view : scan.inView row = true)
    (st : DwellMap × List Bytes32) :
    (scan.visit st row).1 (nameOf eventId) =
        (if scan.Dwelt st.1 eventId then none
          else some ((st.1 (nameOf eventId)).getD scan.nowMs)) ∧
      (eventId ∈ (scan.visit st row).2 ↔ eventId ∈ st.2 ∨ scan.Dwelt st.1 eventId) := by
  subst own
  rw [visit_eq, if_pos view]
  split_ifs with long <;> simp [long]

theorem visit_of_hidden {row : Row} (view : scan.inView row = false)
    (st : DwellMap × List Bytes32) : scan.visit st row = st := by
  rw [visit_eq, view, if_neg Bool.false_ne_true]

/-- The pass over rows none of which shows the card. -/
theorem foldl_visit_of_hidden {rows : List Row}
    (hidden : ∀ row ∈ rows, row.eventId = eventId → scan.inView row = false)
    (st : DwellMap × List Bytes32) :
    (rows.foldl scan.visit st).1 (nameOf eventId) = st.1 (nameOf eventId) ∧
      (eventId ∈ (rows.foldl scan.visit st).2 ↔ eventId ∈ st.2) := by
  induction rows generalizing st with
  | nil => exact ⟨rfl, Iff.rfl⟩
  | cons row rows ih =>
    obtain ⟨map, sent⟩ := ih (fun r mem => hidden r (List.mem_cons_of_mem _ mem))
      (scan.visit st row)
    rw [List.foldl_cons, map, sent]
    by_cases own : row.eventId = eventId
    · rw [visit_of_hidden (hidden row List.mem_cons_self own)]
      exact ⟨rfl, Iff.rfl⟩
    · exact visit_of_ne own st

/-- The pass over all rows, of which one shows the card. -/
theorem foldl_visit_of_shown {rows : List Row} (distinct : (rows.map Row.eventId).Nodup) {row : Row}
    (mem : row ∈ rows) (own : row.eventId = eventId) (view : scan.inView row = true)
    (st : DwellMap × List Bytes32) :
    (rows.foldl scan.visit st).1 (nameOf eventId) =
        (if scan.Dwelt st.1 eventId then none
          else some ((st.1 (nameOf eventId)).getD scan.nowMs)) ∧
      (eventId ∈ (rows.foldl scan.visit st).2 ↔ eventId ∈ st.2 ∨ scan.Dwelt st.1 eventId) := by
  obtain ⟨before, after, rfl⟩ := List.append_of_mem mem
  have apart : ∀ r ∈ before ++ after, r.eventId ≠ eventId := by
    have once := (List.perm_middle.map Row.eventId).nodup distinct
    have fresh := (List.nodup_cons.1 once).1
    intro r hr same
    exact fresh (List.mem_map.2 ⟨r, hr, same.trans own.symm⟩)
  have hiddenBefore : ∀ r ∈ before, r.eventId = eventId → scan.inView r = false :=
    fun r hr same => absurd same (apart r (List.mem_append_left _ hr))
  have hiddenAfter : ∀ r ∈ after, r.eventId = eventId → scan.inView r = false :=
    fun r hr same => absurd same (apart r (List.mem_append_right _ hr))
  have first := foldl_visit_of_hidden hiddenBefore st
  have last := foldl_visit_of_hidden hiddenAfter (scan.visit (before.foldl scan.visit st) row)
  have here := visit_self own view (before.foldl scan.visit st)
  have long : scan.Dwelt (before.foldl scan.visit st).1 eventId ↔ scan.Dwelt st.1 eventId := by
    rw [Scan.Dwelt, Scan.Dwelt, first.1]
  rw [List.foldl_append, List.foldl_cons]
  rw [last.1, last.2, here.1, here.2, first.1, first.2]
  simp only [long]
  exact ⟨trivial, trivial⟩

theorem mem_stillVisible : nameOf eventId ∈ scan.stillVisible ↔ scan.Shows eventId := by
  have same (row : Row) : row.widgetName = nameOf eventId ↔ row.eventId = eventId := nameOf_inj
  simp only [Scan.stillVisible, List.mem_map, List.mem_filter, isEmpty_widgetName, same, Scan.Shows,
    Bool.not_false, Bool.true_and]
  grind

/-- What a tick sends of a card, and since when the card is in view after it. -/
theorem tick_card (dwell : DwellMap) :
    (eventId ∈ (tick (some scan) dwell).2 ↔ scan.Shows eventId ∧ scan.Dwelt dwell eventId) ∧
      ∀ t, (tick (some scan) dwell).1 (nameOf eventId) = some t ↔
        scan.Shows eventId ∧ ¬ scan.Dwelt dwell eventId ∧
          (dwell (nameOf eventId)).getD scan.nowMs = t := by
  by_cases shows : scan.Shows eventId
  · have kept := mem_stillVisible.2 shows
    obtain ⟨row, mem, own, view⟩ := id shows
    obtain ⟨map, sent⟩ := foldl_visit_of_shown scan.distinct mem own view (dwell, [])
    simp only [tick, if_pos kept, map, sent]
    grind
  · have left := fun kept => shows (mem_stillVisible.1 kept)
    have hidden : ∀ row ∈ scan.rows, row.eventId = eventId → scan.inView row = false := by
      intro row mem own
      exact Bool.eq_false_iff.2 fun view => shows ⟨row, mem, own, view⟩
    obtain ⟨-, sent⟩ := foldl_visit_of_hidden hidden (dwell, [])
    simp only [tick, if_neg left, sent, shows, false_and, List.not_mem_nil, reduceCtorEq,
      implies_true, and_self]

/-! ## Runs -/

/-- The cards that a scan marks as read after other scans. -/
def Scan.sent (scan : Scan) (past : List Scan) : List Bytes32 :=
  sentAt (some scan) (past.map some)

/-- A card in view at every scan since a first one, and not marked at any of them. Before the
first one it was out of view, or it was marked. -/
structure Stretch (eventId : Bytes32) (later : List Scan) (first : Scan) (before : List Scan) :
    Prop where
  shown : first.Shows eventId ∧ ∀ s ∈ later, s.Shows eventId
  unmarked : ∀ newer s older, later = newer ++ s :: older →
    eventId ∉ s.sent (older ++ first :: before)
  starts : ∀ s older, before = s :: older → s.Shows eventId → eventId ∈ s.sent older

theorem mem_sent_iff {past : List Scan} :
    eventId ∈ scan.sent past ↔
      scan.Shows eventId ∧ scan.Dwelt (dwellAfter (past.map some)) eventId :=
  (tick_card _).1

/-- Since when a card is in view, by the map, is when its stretch began. -/
theorem dwellAfter_eq_some_iff {past : List Scan} {t : ℕ} :
    dwellAfter (past.map some) (nameOf eventId) = some t ↔
      ∃ later first before, past = later ++ first :: before ∧
        Stretch eventId later first before ∧ first.nowMs = t := by
  induction past generalizing t with
  | nil => simp [dwellAfter]
  | cons s past ih =>
    change (tick (some s) (dwellAfter (past.map some))).1 (nameOf eventId) = some t ↔ _
    rw [(tick_card _).2 t]
    constructor
    · rintro ⟨shows, short, since⟩
      have unmarked : eventId ∉ s.sent past := fun sent => short (mem_sent_iff.1 sent).2
      cases start : dwellAfter (past.map some) (nameOf eventId) with
      | none =>
        -- the stretch begins with this scan
        rw [start] at since
        refine ⟨[], s, past, rfl, ⟨⟨shows, by simp⟩, by simp, ?_⟩, since⟩
        rintro r older rfl there
        by_contra kept
        have short' : ¬ r.Dwelt (dwellAfter (older.map some)) eventId := fun long =>
          kept (mem_sent_iff.2 ⟨there, long⟩)
        have known := ((tick_card (dwellAfter (older.map some))).2 _).2 ⟨there, short', rfl⟩
        exact absurd (start.symm.trans known) (by simp)
      | some u =>
        -- the stretch goes on
        rw [start, Option.getD_some] at since
        obtain ⟨later, first, before, rfl, stretch, began⟩ := ih.1 start
        refine ⟨s :: later, first, before, rfl, ⟨⟨stretch.shown.1, ?_⟩, ?_, stretch.starts⟩,
          began.trans since⟩
        · exact List.forall_mem_cons.2 ⟨shows, stretch.shown.2⟩
        · rintro newer r older split
          rcases List.cons_eq_append_iff.1 split with ⟨rfl, here⟩ | ⟨newer', rfl, there⟩
          · obtain ⟨rfl, rfl⟩ := List.cons.inj here
            exact unmarked
          · exact stretch.unmarked newer' r older there
    · rintro ⟨later, first, before, split, stretch, began⟩
      rcases List.cons_eq_append_iff.1 split with ⟨rfl, here⟩ | ⟨later', rfl, there⟩
      · obtain ⟨rfl, rfl⟩ := List.cons.inj here
        have fresh : dwellAfter (before.map some) (nameOf eventId) = none := by
          rw [Option.eq_none_iff_forall_ne_some]
          intro u known
          cases before with
          | nil => simp [dwellAfter] at known
          | cons r older =>
            obtain ⟨there, short, -⟩ := ((tick_card (dwellAfter (older.map some))).2 u).1 known
            exact short (mem_sent_iff.1 (stretch.starts r older rfl there)).2
        refine ⟨stretch.shown.1, ?_, by rw [fresh]; exact began⟩
        rw [Scan.Dwelt, fresh, dwellAutoReadMs, Option.getD_none]
        omega
      · have start := ih.2 ⟨later', first, before, there, ⟨⟨stretch.shown.1,
          fun r mem => stretch.shown.2 r (List.mem_cons_of_mem _ mem)⟩,
          fun newer r older at' => stretch.unmarked (s :: newer) r older (by rw [at']; rfl),
          stretch.starts⟩, began⟩
        have shows := stretch.shown.2 s List.mem_cons_self
        have unmarked := stretch.unmarked [] s later' rfl
        rw [← there] at unmarked
        refine ⟨shows, fun long => unmarked (mem_sent_iff.2 ⟨shows, long⟩), ?_⟩
        rw [start, Option.getD_some]

/-- A scan of a detached feed changes nothing. -/
theorem dwellAfter_reduceOption (past : List (Option Scan)) :
    dwellAfter past = dwellAfter (past.reduceOption.map some) := by
  induction past with
  | nil => rfl
  | cons scan past ih =>
    cases scan with
    | none => exact ih
    | some scan =>
      rw [List.reduceOption_cons_of_some, List.map_cons]
      exact congrArg (fun dwell => (tick (some scan) dwell).1) ih

/-- In every run of the timer a scan marks a card as read if and only if it shows the card, the
card was in view at all scans back to one at least 1500 ms earlier by the clock, no scan marked
it since then, and it came into view, or was marked, right before. Ticks of a detached feed do
not count, and the card counts as in view over them. -/
theorem marked_iff (scan : Scan) (past : List (Option Scan)) (eventId : Bytes32) :
    eventId ∈ sentAt (some scan) past ↔
      scan.Shows eventId ∧ ∃ later first before,
        past.reduceOption = later ++ first :: before ∧ Stretch eventId later first before ∧
          dwellAutoReadMs ≤ scan.nowMs - first.nowMs := by
  rw [sentAt, dwellAfter_reduceOption]
  refine mem_sent_iff.trans (and_congr_right fun _ => ?_)
  rw [Scan.Dwelt]
  constructor
  · intro long
    cases since : dwellAfter (past.reduceOption.map some) (nameOf eventId) with
    | none =>
      rw [since, dwellAutoReadMs, Option.getD_none] at long
      omega
    | some t =>
      obtain ⟨later, first, before, split, stretch, rfl⟩ := dwellAfter_eq_some_iff.1 since
      rw [since, Option.getD_some] at long
      exact ⟨later, first, before, split, stretch, long⟩
  · rintro ⟨later, first, before, split, stretch, long⟩
    rw [dwellAfter_eq_some_iff.2 ⟨later, first, before, split, stretch, rfl⟩]
    exact long

end Zodia.App.Dwell
