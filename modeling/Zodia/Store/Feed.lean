import Zodia.Lib.Run
import Zodia.Store.Interpretations

/-!
# The store behind the feed

The affirmations, the read marks and the queries of `store/src/lib.rs` that make the activity
feed. A feed row stands for an interpretation, a response or an affirmation, and it is named by
the primary key of the row it was made from.

## Main definitions

* `Db` — the tables the feed is made from.
* `StoreOp`, `Db.step` — the operations of the store on them.
* `RecentCommunityInterps`, `RecentFeedRows` — what the two queries may return.
* `Db.feedTargetingUnreadIds` — the events the bell counts.

## Main results

* `InterpEffect.of_step` — what an operation can do to the interpretations.
* `Db.Named.exec` — every row is named by the hash of its key string and its body.
-/

namespace Zodia.Store

open Lib

variable {Digest Sig Secret VerifyingKey : Type*}

/-! ## Tables -/

structure AffirmationRow (Digest : Type*) where
  logId : Digest
  interpLogId : Digest
  authorPk : Bytes32
  createdAt : ℕ
  deriving DecidableEq

abbrev Affirmations (Digest : Type*) := Table fun a : AffirmationRow Digest => a.logId

structure FeedReadRow (Digest : Type*) where
  eventId : Digest
  readAt : ℕ
  deriving DecidableEq

structure Db (Digest Sig : Type*) where
  interpretations : Interpretations Digest Sig
  affirmations : Affirmations Digest
  feedRead : Table fun r : FeedReadRow Digest => r.eventId

def Db.empty : Db Digest Sig := ⟨Table.empty, Table.empty, Table.empty⟩

/-! ## Writes -/

section Writes

variable [DecidableEq Digest] (hash : Hash Digest) (asBytes : Digest → Bytes)

/-- The row `insert_interpretation` offers. -/
def interpretationRow (interpKey body : String) (authorPk : Option Bytes32) (isBaseline : Bool)
    (now : ℕ) : InterpRow Digest Sig where
  logId := deriveLogId hash interpKey body
  interpKey := interpKey
  interpKind := kindFromKeyStr interpKey
  body := body
  authorPk := authorPk
  authorSig := none
  parentLogId := none
  receivedAt := now
  isBaseline := isBaseline
  revoked := false

def insertInterpretation (t : Interpretations Digest Sig) (interpKey body : String)
    (authorPk : Option Bytes32) (isBaseline : Bool) (now : ℕ) : Interpretations Digest Sig :=
  t.insertOrIgnore (interpretationRow hash interpKey body authorPk isBaseline now)

/-- Insert an own interpretation with the signature the caller made. -/
def insertSigned (t : Interpretations Digest Sig) (interpKey body : String) (authorPk : Bytes32)
    (authorSig : Sig) (now : ℕ) : Interpretations Digest Sig :=
  t.insertOrIgnore (receivedRow hash interpKey body authorPk authorSig now)

/-- Whether `revoke_interp` finds a row to revoke. -/
def revokeInterpFinds (t : Interpretations Digest Sig) (logId : Digest)
    (expectedAuthor : Bytes32) : Bool :=
  t.rows.any fun r =>
    decide (r.logId = logId ∧ r.authorPk = some expectedAuthor) && !r.revoked

/-- Delete the bundled texts. -/
def scrubBaseline (t : Interpretations Digest Sig) : Interpretations Digest Sig :=
  t.filter fun r => !r.isBaseline

/-- The primary key of an affirmation. -/
def affirmationId (interpLogId : Digest) (authorPk : Bytes32) : Digest :=
  hash (asBytes interpLogId ++ authorPk.toList)

/-- Whether the author has affirmed the interpretation. -/
def affirmed (t : Affirmations Digest) (interpLogId : Digest) (authorPk : Bytes32) : Bool :=
  t.rows.any fun a => decide (a.interpLogId = interpLogId ∧ a.authorPk = authorPk)

/-- Record an affirmation. The pair of interpretation and author is unique, as the primary key
is. -/
def affirm (t : Affirmations Digest) (interpLogId : Digest) (authorPk : Bytes32) (now : ℕ) :
    Affirmations Digest :=
  if affirmed t interpLogId authorPk then t
  else
    t.insertOrIgnore
      ⟨affirmationId hash asBytes interpLogId authorPk, interpLogId, authorPk, now⟩

/-- The operations of the store that write these tables, with the clock they read. -/
inductive StoreOp (Digest Sig : Type*) where
  | insertInterpretation (interpKey body : String) (authorPk : Option Bytes32) (isBaseline : Bool)
      (now : ℕ)
  | insertSigned (interpKey body : String) (authorPk : Bytes32) (authorSig : Sig) (now : ℕ)
  | insertFromOp (interpKey body : String) (authorPk : Bytes32) (now : ℕ)
  | insertReceived (interpKey body : String) (authorPk : Bytes32) (authorSig : Sig) (now : ℕ)
  | insertResponseFromOp (parentLogId : Digest) (body : String) (authorPk : Bytes32) (now : ℕ)
  | affirm (interpLogId : Digest) (authorPk : Bytes32) (now : ℕ)
  | revokeInterp (logId : Digest) (expectedAuthor : Bytes32)
  | scrubBaseline
  | markEventRead (eventId : Digest) (now : ℕ)
  | markEventUnread (eventId : Digest)
  | bulkMarkRead (eventIds : List Digest) (now : ℕ)

variable (S : SignatureScheme Secret VerifyingKey Digest Sig)

/-- One operation. A bad signature changes nothing. -/
def Db.step (db : Db Digest Sig) : StoreOp Digest Sig → Db Digest Sig
  | .insertInterpretation interpKey body authorPk isBaseline now =>
    { db with
      interpretations :=
        Store.insertInterpretation hash db.interpretations interpKey body authorPk isBaseline now }
  | .insertSigned interpKey body authorPk authorSig now =>
    { db with
      interpretations :=
        Store.insertSigned hash db.interpretations interpKey body authorPk authorSig now }
  | .insertFromOp interpKey body authorPk now =>
    { db with
      interpretations := Store.insertFromOp hash db.interpretations interpKey body authorPk now }
  | .insertReceived interpKey body authorPk authorSig now =>
    match Store.insertReceived hash S db.interpretations interpKey body authorPk authorSig now with
    | .ok interpretations => { db with interpretations := interpretations }
    | .error _ => db
  | .insertResponseFromOp parentLogId body authorPk now =>
    { db with
      interpretations :=
        Store.insertResponseFromOp hash db.interpretations parentLogId body authorPk now }
  | .affirm interpLogId authorPk now =>
    { db with affirmations := Store.affirm hash asBytes db.affirmations interpLogId authorPk now }
  | .revokeInterp logId expectedAuthor =>
    { db with interpretations := Store.revokeInterp db.interpretations logId expectedAuthor }
  | .scrubBaseline => { db with interpretations := Store.scrubBaseline db.interpretations }
  | .markEventRead eventId now => { db with feedRead := db.feedRead.upsert ⟨eventId, now⟩ }
  | .markEventUnread eventId => { db with feedRead := db.feedRead.erase eventId }
  | .bulkMarkRead eventIds now =>
    { db with feedRead := eventIds.foldl (fun t id => t.insertOrIgnore ⟨id, now⟩) db.feedRead }

end Writes

/-! ## Reads -/

/-- The number of affirmations of an interpretation. -/
def Db.affirmationCount [DecidableEq Digest] (db : Db Digest Sig) (logId : Digest) : ℕ :=
  db.affirmations.rows.countP fun a => decide (a.interpLogId = logId)

/-- What `recent_community_interps` may return. -/
def RecentCommunityInterps (t : Interpretations Digest Sig) (limit : ℕ)
    (out : List (InterpRow Digest Sig)) : Prop :=
  Arranged (fun r r' => r'.receivedAt ≤ r.receivedAt) (some limit)
    (t.rows.filter fun r => !r.isBaseline && r.authorSig.isSome) out

inductive FeedRowKind where
  | authored
  | affirm
  | response
  deriving DecidableEq, Repr

structure FeedRow (Digest : Type*) where
  eventId : Digest
  kind : FeedRowKind
  interpKey : String
  body : String
  authorPk : Option Bytes32
  parentLogId : Option Digest
  targetLogId : Option Digest
  ts : ℕ
  authorIsMe : Bool
  deriving DecidableEq

/-- The feed row of an interpretation or a response. -/
def InterpRow.feedRow (me : Bytes32) (kind : FeedRowKind) (r : InterpRow Digest Sig) :
    FeedRow Digest :=
  ⟨r.logId, kind, r.interpKey, r.body, r.authorPk, r.parentLogId, none, r.receivedAt,
    decide (r.authorPk = some me)⟩

/-- The feed row of an affirmation of the interpretation `i`. -/
def AffirmationRow.feedRow (me : Bytes32) (i : InterpRow Digest Sig) (a : AffirmationRow Digest) :
    FeedRow Digest :=
  ⟨a.logId, .affirm, i.interpKey, i.body, some a.authorPk, none, some a.interpLogId, a.createdAt,
    decide (a.authorPk = me)⟩

namespace Db

variable (db : Db Digest Sig) (me : Bytes32)

def authoredFeed : List (FeedRow Digest) :=
  (db.interpretations.rows.filter fun r =>
    !r.isBaseline && r.parentLogId.isNone && !r.revoked).map (InterpRow.feedRow me .authored)

def responseFeed : List (FeedRow Digest) :=
  (db.interpretations.rows.filter fun r =>
    !r.isBaseline && r.parentLogId.isSome && !r.revoked).map (InterpRow.feedRow me .response)

variable [DecidableEq Digest]

/-- The affirmations joined with the interpretations they affirm. -/
def affirmFeed : List (FeedRow Digest) :=
  db.affirmations.rows.filterMap fun a =>
    match db.interpretations.find? a.interpLogId with
    | some i => if i.revoked then none else some (a.feedRow me i)
    | none => none

/-- Whether the event is marked as read. -/
def isEventRead (eventId : Digest) : Bool := (db.feedRead.find? eventId).isSome

/-- The unread affirmations of own interpretations and the unread responses to them, by
others. -/
def feedTargetingUnreadIds : List Digest :=
  let mine (logId : Digest) :=
    (db.interpretations.find? logId).any fun i => decide (i.authorPk = some me)
  (db.affirmations.rows.filter fun a =>
      mine a.interpLogId && decide (a.authorPk ≠ me) && !db.isEventRead a.logId).map (·.logId) ++
    (db.interpretations.rows.filter fun r =>
      r.parentLogId.any mine && r.authorPk.any (fun pk => decide (pk ≠ me)) &&
        !db.isEventRead r.logId).map (·.logId)

end Db

/-- What `recent_feed_rows` may return: the newest events of each kind, and the newest of
these. -/
def RecentFeedRows [DecidableEq Digest] (db : Db Digest Sig) (me : Bytes32) (limit : ℕ)
    (out : List (FeedRow Digest)) : Prop :=
  ∃ authored response affirm,
    Arranged (fun r r' => r'.ts ≤ r.ts) (some limit) (db.authoredFeed me) authored ∧
    Arranged (fun r r' => r'.ts ≤ r.ts) (some limit) (db.responseFeed me) response ∧
    Arranged (fun r r' => r'.ts ≤ r.ts) (some limit) (db.affirmFeed me) affirm ∧
    Arranged (fun r r' => r'.ts ≤ r.ts) (some limit) (authored ++ response ++ affirm) out

/-- A row of the feed is one of an interpretation that is not revoked, or of an affirmation of
one. -/
theorem RecentFeedRows.source [DecidableEq Digest] {db : Db Digest Sig} {me : Bytes32} {limit : ℕ}
    {out : List (FeedRow Digest)} (h : RecentFeedRows db me limit out) {e : FeedRow Digest}
    (he : e ∈ out) :
    (∃ r ∈ db.interpretations, r.isBaseline = false ∧ r.revoked = false ∧
      e = r.feedRow me (if r.parentLogId.isSome then .response else .authored)) ∨
    ∃ a ∈ db.affirmations, ∃ i ∈ db.interpretations, i.logId = a.interpLogId ∧
      i.revoked = false ∧ e = a.feedRow me i := by
  obtain ⟨authored, response, affirm, hauthored, hresponse, haffirm, hout⟩ := h
  rcases List.mem_append.1 (hout.subset he) with interp | join
  · rcases List.mem_append.1 interp with root | reply
    · obtain ⟨r, hr, rfl⟩ := List.mem_map.1 (hauthored.subset root)
      have kept := List.mem_filter.1 hr
      simp only [Bool.and_eq_true, Bool.not_eq_true', Option.isNone_iff_eq_none] at kept
      obtain ⟨stored, ⟨community, noParent⟩, current⟩ := kept
      exact .inl ⟨r, stored, community, current, by simp [noParent]⟩
    · obtain ⟨r, hr, rfl⟩ := List.mem_map.1 (hresponse.subset reply)
      have kept := List.mem_filter.1 hr
      simp only [Bool.and_eq_true, Bool.not_eq_true'] at kept
      obtain ⟨stored, ⟨community, parent⟩, current⟩ := kept
      exact .inl ⟨r, stored, community, current, by simp [parent]⟩
  · obtain ⟨a, ha, joined⟩ := List.mem_filterMap.1 (haffirm.subset join)
    cases found : db.interpretations.find? a.interpLogId with
    | none => simp [found] at joined
    | some i =>
      obtain ⟨stored, named⟩ := Table.find?_eq_some.1 found
      simp only [found] at joined
      split_ifs at joined with revoked
      exact .inr ⟨a, ha, i, stored, named, by simpa using revoked, (Option.some.inj joined).symm⟩

/-- With a limit that does not cut, every event is returned. -/
theorem exists_recentFeedRows [DecidableEq Digest] (db : Db Digest Sig) (me : Bytes32) :
    ∃ limit out, RecentFeedRows db me limit out ∧
      ∀ e ∈ db.authoredFeed me ++ db.responseFeed me ++ db.affirmFeed me, e ∈ out := by
  let events := db.authoredFeed me ++ db.responseFeed me ++ db.affirmFeed me
  have length : events.length = (db.authoredFeed me).length + (db.responseFeed me).length +
      (db.affirmFeed me).length := by simp [events, Nat.add_assoc]
  have newest (rows : List (FeedRow Digest)) (fits : rows.length ≤ events.length) :=
    exists_arranged (fun r r' : FeedRow Digest => r'.ts ≤ r.ts) (fun _ _ => le_total _ _)
      (fun _ _ _ h h' => le_trans h' h) rows (some events.length)
      (fun n limited => Option.some.inj limited ▸ fits)
  obtain ⟨authored, hauthored, perm₁⟩ := newest (db.authoredFeed me) (by omega)
  obtain ⟨response, hresponse, perm₂⟩ := newest (db.responseFeed me) (by omega)
  obtain ⟨affirm, haffirm, perm₃⟩ := newest (db.affirmFeed me) (by omega)
  have perm : (authored ++ response ++ affirm).Perm events := (perm₁.append perm₂).append perm₃
  obtain ⟨out, hout, all⟩ := newest (authored ++ response ++ affirm) perm.length_eq.le
  exact ⟨_, out, ⟨authored, response, affirm, hauthored, hresponse, haffirm, hout⟩,
    fun e he => (all.trans perm).symm.subset he⟩

/-! ## What an operation does to the interpretations -/

/-- The row is named by the hash of its key string and its body. -/
def InterpRow.Named (hash : Hash Digest) (r : InterpRow Digest Sig) : Prop :=
  r.logId = deriveLogId hash r.interpKey r.body

/-- The ways the table of interpretations can change. -/
inductive InterpEffect [DecidableEq Digest] (hash : Hash Digest) (t : Interpretations Digest Sig) :
    Interpretations Digest Sig → Prop
  | unchanged : InterpEffect hash t t
  | inserted (r : InterpRow Digest Sig) (named : r.Named hash) (current : r.revoked = false) :
    InterpEffect hash t (t.insertOrIgnore r)
  | revoked (logId : Digest) (author : Bytes32) :
    InterpEffect hash t (revokeInterp t logId author)
  | scrubbed : InterpEffect hash t (scrubBaseline t)

section Effect

variable [DecidableEq Digest] {hash : Hash Digest} {asBytes : Digest → Bytes}
  {S : SignatureScheme Secret VerifyingKey Digest Sig} {db : Db Digest Sig}

theorem InterpEffect.of_step (op : StoreOp Digest Sig) :
    InterpEffect hash db.interpretations (db.step hash asBytes S op).interpretations := by
  cases op with
  | insertInterpretation => exact .inserted _ rfl rfl
  | insertSigned => exact .inserted _ rfl rfl
  | insertFromOp => exact .inserted _ rfl rfl
  | insertReceived interpKey body authorPk authorSig now =>
    simp only [Db.step, insertReceived]
    by_cases accepted : S.accepts authorPk (deriveLogId hash interpKey body) authorSig = true
    · rw [if_pos accepted]
      exact .inserted _ rfl rfl
    · rw [if_neg accepted]
      exact .unchanged
  | insertResponseFromOp => exact .inserted _ rfl rfl
  | affirm => exact .unchanged
  | revokeInterp logId author => exact .revoked logId author
  | scrubBaseline => exact .scrubbed
  | markEventRead => exact .unchanged
  | markEventUnread => exact .unchanged
  | bulkMarkRead => exact .unchanged

/-- Every row is named by what it says. -/
def Db.Named (hash : Hash Digest) (db : Db Digest Sig) : Prop :=
  ∀ r ∈ db.interpretations, r.Named hash

theorem InterpEffect.named {t t' : Interpretations Digest Sig} (effect : InterpEffect hash t t')
    (h : ∀ r ∈ t, r.Named hash) : ∀ r ∈ t', r.Named hash := by
  cases effect with
  | unchanged => exact h
  | inserted r named _ =>
    intro x hx
    rcases Table.mem_insertOrIgnore.1 hx with old | ⟨rfl, -⟩
    · exact h x old
    · exact named
  | revoked logId author =>
    intro x hx
    obtain ⟨r, hr, rfl⟩ := mem_revokeInterp.1 hx
    rw [InterpRow.revoke_eq]
    exact h r hr
  | scrubbed => exact fun x hx => h x (Table.mem_filter.1 hx).1

theorem Db.Named.exec (named : db.Named hash) (ops : List (StoreOp Digest Sig)) :
    (exec (Db.step hash asBytes S) db ops).Named hash :=
  exec_keeps (Db.Named hash) (fun _ op h => (InterpEffect.of_step op).named h) named ops

omit [DecidableEq Digest] in
theorem Db.named_empty (hash : Hash Digest) : (Db.empty : Db Digest Sig).Named hash :=
  fun _ hr => absurd hr (Table.not_mem_empty _)

end Effect

end Zodia.Store
