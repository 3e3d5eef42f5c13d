import Mathlib.Data.List.Basic
import Zodia.Lib.Query
import Zodia.Store.Feed

/-!
# The bell counts what it can mark

The bell shows a number that one query counts, and a click on it marks the ids that another
query lists. Both join the affirmations with the interpretations they affirm, and the responses
with their parents.

## Main definitions

* `Db.feedTargetingUnreadCount` — the number on the bell.
* `BellCountExact` — what the number and the ids have to do with each other.

## Main results

* `feedTargetingUnreadIds_of_read` — marking events takes their ids from the list.
* `bell_count_exact` — the number is exact in every store.
-/

namespace Zodia.Store

open Lib

variable {Digest Sig Secret VerifyingKey : Type*} [DecidableEq Digest]

/-- The number of unread events that target `me`. -/
def Db.feedTargetingUnreadCount (db : Db Digest Sig) (me : Bytes32) : ℕ :=
  (db.interpretations.join db.affirmations.rows fun a => some a.interpLogId).countP
      (fun (a, i) => decide (i.authorPk = some me) && decide (a.authorPk ≠ me) &&
        !db.isEventRead a.logId) +
    (db.interpretations.join db.interpretations.rows fun r => r.parentLogId).countP
      (fun (r, p) => r.parentLogId.isSome && decide (p.authorPk = some me) &&
        r.authorPk.any (fun pk => decide (pk ≠ me)) && !db.isEventRead r.logId)

/-- The number is that of the listed ids, which are distinct and none of which stands for an
affirmation or a response by `me`. Marking one of them lowers it by one, and marking all of
them leaves none. -/
structure BellCountExact (hash : Hash Digest) (asBytes : Digest → Bytes)
    (S : SignatureScheme Secret VerifyingKey Digest Sig) (db : Db Digest Sig) (me : Bytes32) :
    Prop where
  count : db.feedTargetingUnreadCount me = (db.feedTargetingUnreadIds me).length
  distinct : (db.feedTargetingUnreadIds me).Nodup
  markOne : ∀ id ∈ db.feedTargetingUnreadIds me, ∀ now,
    (db.step hash asBytes S (.markEventRead id now)).feedTargetingUnreadCount me + 1 =
      db.feedTargetingUnreadCount me
  markAll : ∀ now, (db.step hash asBytes S
    (.bulkMarkRead (db.feedTargetingUnreadIds me) now)).feedTargetingUnreadCount me = 0
  ownAffirmation : ∀ a ∈ db.affirmations, a.authorPk = me →
    a.logId ∉ db.feedTargetingUnreadIds me
  ownResponse : ∀ r ∈ db.interpretations, r.authorPk = some me →
    r.logId ∉ db.feedTargetingUnreadIds me

variable {db db' : Db Digest Sig} {me : Bytes32}

/-! ## The two queries -/

theorem feedTargetingUnreadCount_eq (db : Db Digest Sig) (me : Bytes32) :
    db.feedTargetingUnreadCount me = (db.feedTargetingUnreadIds me).length := by
  rw [Db.feedTargetingUnreadCount, Db.feedTargetingUnreadIds, Table.countP_join,
    Table.countP_join, List.length_append, List.length_map, List.length_map,
    ← List.countP_eq_length_filter, ← List.countP_eq_length_filter]
  congr 1
  · apply List.countP_congr
    intro a _
    rw [Option.bind_some]
    cases found : db.interpretations.find? a.interpLogId <;> simp [found, and_assoc]
  · apply List.countP_congr
    intro r _
    cases parent : r.parentLogId with
    | none => simp
    | some parentLogId =>
      rw [Option.bind_some]
      cases found : db.interpretations.find? parentLogId <;> simp [found, parent, and_assoc]

/-- A listed id is that of an affirmation or a response by somebody else. -/
theorem of_mem_feedTargetingUnreadIds {id : Digest} (h : id ∈ db.feedTargetingUnreadIds me) :
    (∃ a ∈ db.affirmations, a.logId = id ∧ a.authorPk ≠ me) ∨
      ∃ r ∈ db.interpretations, r.logId = id ∧ r.authorPk ≠ some me := by
  rcases List.mem_append.1 h with affirmation | response
  · obtain ⟨a, ha, rfl⟩ := List.mem_map.1 affirmation
    simp only [List.mem_filter, Bool.and_eq_true, decide_eq_true_eq] at ha
    exact .inl ⟨a, ha.1, rfl, ha.2.1.2⟩
  · obtain ⟨r, hr, rfl⟩ := List.mem_map.1 response
    simp only [List.mem_filter, Bool.and_eq_true] at hr
    refine .inr ⟨r, hr.1, rfl, fun own => ?_⟩
    have other := hr.2.1.2
    simp [own] at other

/-! ## What changes the number -/

section Changes

/-- The interpretation is stored, and by `me`. -/
def Db.mine (db : Db Digest Sig) (me : Bytes32) (logId : Digest) : Bool :=
  (db.interpretations.find? logId).any fun i => decide (i.authorPk = some me)

def Db.unreadAffirmation (db : Db Digest Sig) (me : Bytes32) (a : AffirmationRow Digest) : Bool :=
  decide (a.authorPk ≠ me) && !db.isEventRead a.logId

def Db.unreadResponse (db : Db Digest Sig) (me : Bytes32) (r : InterpRow Digest Sig) : Bool :=
  r.authorPk.any (fun pk => decide (pk ≠ me)) && !db.isEventRead r.logId

/-- Somebody else has affirmed the interpretation or responded to it, and this is unread. -/
def Db.HasUnreadOn (db : Db Digest Sig) (me : Bytes32) (logId : Digest) : Prop :=
  (∃ a ∈ db.affirmations, a.interpLogId = logId ∧ db.unreadAffirmation me a = true) ∨
    ∃ r ∈ db.interpretations, r.parentLogId = some logId ∧ db.unreadResponse me r = true

theorem feedTargetingUnreadCount_eq_countP (db : Db Digest Sig) (me : Bytes32) :
    db.feedTargetingUnreadCount me =
      db.affirmations.rows.countP (fun a => db.mine me a.interpLogId && db.unreadAffirmation me a) +
      db.interpretations.rows.countP fun r =>
        r.parentLogId.any (db.mine me) && db.unreadResponse me r := by
  rw [feedTargetingUnreadCount_eq, Db.feedTargetingUnreadIds, List.length_append, List.length_map,
    List.length_map, ← List.countP_eq_length_filter, ← List.countP_eq_length_filter]
  simp only [Db.mine, Db.unreadAffirmation, Db.unreadResponse, Bool.and_assoc]
  rfl

/-- Rewriting rows does not change the number, as long as authors and parents stay. -/
theorem feedTargetingUnreadCount_update (db : Db Digest Sig) (me : Bytes32)
    (f : InterpRow Digest Sig → InterpRow Digest Sig) (keeps : ∀ r, (f r).logId = r.logId)
    (author : ∀ r, (f r).authorPk = r.authorPk) (parent : ∀ r, (f r).parentLogId = r.parentLogId) :
    ({ db with interpretations := db.interpretations.update f keeps } :
        Db Digest Sig).feedTargetingUnreadCount me = db.feedTargetingUnreadCount me := by
  have mine : ({ db with interpretations := db.interpretations.update f keeps } :
      Db Digest Sig).mine me = db.mine me := by
    funext logId
    rw [Db.mine, Table.find?_update, Db.mine]
    cases db.interpretations.find? logId with
    | none => rfl
    | some i => simp [author]
  rw [feedTargetingUnreadCount_eq_countP, feedTargetingUnreadCount_eq_countP, mine]
  congr 1
  simp [Table.update, List.countP_map, Function.comp_def, Db.unreadResponse, Db.isEventRead, author,
    parent, keeps]

variable {r : InterpRow Digest Sig}

theorem mine_insertOrIgnore (db : Db Digest Sig) (free : db.interpretations.Free r.logId)
    (me : Bytes32) :
    ({ db with interpretations := db.interpretations.insertOrIgnore r } : Db Digest Sig).mine me =
      Function.update (db.mine me) r.logId (decide (r.authorPk = some me)) := by
  funext logId
  rw [Db.mine, Table.find?_insertOrIgnore free, Function.update_apply]
  by_cases same : r.logId = logId
  · rw [if_pos same, if_pos same.symm]
    rfl
  · rw [if_neg same, if_neg (Ne.symm same)]
    rfl

/-- A new text that responds to nothing changes the number exactly if it is by `me` and there is
something unread on it. -/
theorem feedTargetingUnreadCount_insertOrIgnore (free : db.interpretations.Free r.logId)
    (noParent : r.parentLogId = none) (me : Bytes32) :
    ({ db with interpretations := db.interpretations.insertOrIgnore r } :
        Db Digest Sig).feedTargetingUnreadCount me = db.feedTargetingUnreadCount me ↔
      ¬ (r.authorPk = some me ∧ db.HasUnreadOn me r.logId) := by
  have absent : db.mine me r.logId = false := by
    rw [Db.mine, Table.find?_eq_none.2 free]
    rfl
  -- a text that somebody has affirmed or responded to adds to one of the two counts
  have affirmations := countP_any_update_eq_iff absent (decide (r.authorPk = some me))
    (fun a => some a.interpLogId) (db.unreadAffirmation me) db.affirmations.rows
  have responses := countP_any_update_eq_iff absent (decide (r.authorPk = some me))
    InterpRow.parentLogId (db.unreadResponse me) db.interpretations.rows
  have both := (add_eq_add_iff_eq_and_eq
    (countP_any_update_le absent (decide (r.authorPk = some me)) (fun a => some a.interpLogId)
      (db.unreadAffirmation me) db.affirmations.rows)
    (countP_any_update_le absent (decide (r.authorPk = some me)) InterpRow.parentLogId
      (db.unreadResponse me) db.interpretations.rows)).trans
    (and_congr (eq_comm.trans affirmations) (eq_comm.trans responses))
  rw [feedTargetingUnreadCount_eq_countP, feedTargetingUnreadCount_eq_countP,
    mine_insertOrIgnore db free me, Table.rows_insertOrIgnore free, List.countP_append,
    List.countP_singleton, noParent]
  refine eq_comm.trans (both.trans ?_)
  simp only [decide_eq_true_eq, Option.some.injEq, ← not_or, ← and_or_left]
  rfl

end Changes

/-! ## Marks -/

/-- When events are marked, their ids are listed no more, and the others as before. -/
theorem feedTargetingUnreadIds_of_read {marked : List Digest}
    (interpretations : db'.interpretations = db.interpretations)
    (affirmations : db'.affirmations = db.affirmations)
    (read : ∀ id, db'.isEventRead id = (decide (id ∈ marked) || db.isEventRead id)) :
    db'.feedTargetingUnreadIds me =
      (db.feedTargetingUnreadIds me).filter fun id => decide (id ∉ marked) := by
  simp only [Db.feedTargetingUnreadIds, interpretations, affirmations, read, List.filter_append,
    List.filter_map, List.filter_filter]
  congr 2
  · apply List.filter_congr
    intro a _
    grind
  · apply List.filter_congr
    intro r _
    grind

section Marks

variable {hash : Hash Digest} {asBytes : Digest → Bytes}
  {S : SignatureScheme Secret VerifyingKey Digest Sig} {now : ℕ}

theorem isEventRead_markEventRead (eventId id : Digest) :
    (db.step hash asBytes S (.markEventRead eventId now)).isEventRead id =
      (decide (id ∈ [eventId]) || db.isEventRead id) := by
  simp only [Db.step, Db.isEventRead, Table.find?_upsert, List.mem_singleton, eq_comm (a := id)]
  split_ifs with same <;> simp [same]

theorem isEventRead_bulkMarkRead (eventIds : List Digest) (id : Digest) :
    (db.step hash asBytes S (.bulkMarkRead eventIds now)).isEventRead id =
      (decide (id ∈ eventIds) || db.isEventRead id) := by
  rw [Bool.eq_iff_iff, Bool.or_eq_true, decide_eq_true_eq]
  refine Table.find?_isSome_foldl_insertOrIgnore.trans (or_congr_left ?_)
  simp

end Marks

/-- The bell is exact in every store in which no affirmation and no interpretation share an
id. -/
theorem bell_count_exact (hash : Hash Digest) (asBytes : Digest → Bytes)
    (S : SignatureScheme Secret VerifyingKey Digest Sig) (db : Db Digest Sig) (me : Bytes32)
    (apart : ∀ a ∈ db.affirmations, ∀ r ∈ db.interpretations, a.logId ≠ r.logId) :
    BellCountExact hash asBytes S db me := by
  have distinct : (db.feedTargetingUnreadIds me).Nodup := by
    refine List.nodup_append.2 ⟨(db.affirmations.filter _).nodup,
      (db.interpretations.filter _).nodup, ?_⟩
    intro id hid id' hid' same
    obtain ⟨a, ha, rfl⟩ := List.mem_map.1 hid
    obtain ⟨r, hr, rfl⟩ := List.mem_map.1 hid'
    exact apart a (List.mem_filter.1 ha).1 r (List.mem_filter.1 hr).1 same
  constructor
  case count => exact feedTargetingUnreadCount_eq db me
  case distinct => exact distinct
  case markOne =>
    intro id hid now
    have rest : (db.step hash asBytes S (.markEventRead id now)).feedTargetingUnreadIds me =
        (db.feedTargetingUnreadIds me).filter fun other => decide (other ∉ [id]) :=
      feedTargetingUnreadIds_of_read rfl rfl (isEventRead_markEventRead id)
    have erased : ((db.feedTargetingUnreadIds me).filter fun other => decide (other ∉ [id])) =
        (db.feedTargetingUnreadIds me).erase id := by
      rw [distinct.erase_eq_filter id]
      refine List.filter_congr fun other _ => ?_
      by_cases same : other = id <;> simp [same]
    rw [feedTargetingUnreadCount_eq, feedTargetingUnreadCount_eq, rest, erased,
      List.length_erase_add_one hid]
  case markAll =>
    intro now
    have rest : (db.step hash asBytes S (.bulkMarkRead (db.feedTargetingUnreadIds me)
        now)).feedTargetingUnreadIds me = (db.feedTargetingUnreadIds me).filter fun id =>
          decide (id ∉ db.feedTargetingUnreadIds me) :=
      feedTargetingUnreadIds_of_read rfl rfl (isEventRead_bulkMarkRead _)
    rw [feedTargetingUnreadCount_eq, rest]
    simp
  case ownAffirmation =>
    intro a ha own listed
    rcases of_mem_feedTargetingUnreadIds listed with ⟨a', ha', same, other⟩ | ⟨r, hr, same, -⟩
    · exact other (Table.eq_of_key ha' ha same ▸ own)
    · exact apart a ha r hr same.symm
  case ownResponse =>
    intro r hr own listed
    rcases of_mem_feedTargetingUnreadIds listed with ⟨a, ha, same, -⟩ | ⟨r', hr', same, other⟩
    · exact apart a ha r hr same
    · exact other (Table.eq_of_key hr' hr same ▸ own)

/-- A text of 1, and by 2 an affirmation of it and a response to it. -/
def twoForMe : Db Bytes (UInt8 × Bytes) :=
  exec (Db.step id id symbolicSignatures) Db.empty
    [.insertFromOp "natal:sun_trine_moon" "calm" (Vector.replicate 32 1) 10,
      .affirm (utf8 "natal:sun_trine_mooncalm") (Vector.replicate 32 2) 20,
      .insertResponseFromOp (utf8 "natal:sun_trine_mooncalm") "yes" (Vector.replicate 32 2) 30]

theorem bell_count_exact_twoForMe :
    BellCountExact id id symbolicSignatures twoForMe (Vector.replicate 32 1) ∧
      twoForMe.feedTargetingUnreadCount (Vector.replicate 32 1) = 2 :=
  ⟨bell_count_exact id id symbolicSignatures twoForMe (Vector.replicate 32 1) (by decide +kernel),
    by decide +kernel⟩

end Zodia.Store
