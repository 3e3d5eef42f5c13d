import Zodia.App.AuthorRights
import Zodia.App.FeedItems
import Zodia.App.RegisterDocs
import Zodia.Lib.Symbolic
import Zodia.Store.BellCount

/-!
# The number on the bell

The bell shows `feed_targeting_unread`. A handler that may have changed what the store counts
queues a `RefreshBellBadge`, which sets the number to what the store counts. An edit of a block
the user is in the ring of raises a card that no table knows of. The handler adds one to the
number for it and queues a refresh like for every other edit, and the refresh takes the one away.

The store is taken to work. What a mute silences is part of the message.

## Main definitions

* `BellApp`, `BellApp.step` — what the bell depends on, and the messages that change it.
* `BadgeExact` — after the queued refreshes the number counts the store and the raised cards.
* `KeepsBadge` — the message raises no card and imports nothing that the number would miss.

## Main results

* `badge_exact_iff` — the number is exact in every state of a session exactly if it is at the
  start and every message keeps it.
-/

namespace Zodia.App

open Lib Doc Store

variable {Blob C Digest Sig Secret VerifyingKey : Type}

/-! ## Messages -/

/-- A `BlockYouAuthoredWasEdited` card, and whether the user has seen to it. -/
structure NoticeCard (Digest : Type) where
  eventId : Digest
  acknowledged : Bool

structure BellApp (Blob Digest Sig : Type) where
  device : Device Blob Digest
  db : Db Digest Sig
  feedTargetingUnread : ℕ
  /-- How many `RefreshBellBadge` are queued. -/
  queued : ℕ
  /-- Whether `feed_view_sender` is there. -/
  feedViewSender : Bool
  cards : List (NoticeCard Digest)

inductive BellMsg (Blob Digest Sig : Type) where
  | syncStateEvent (muted : Bytes32 → Bool) (event : SocialEvent Digest) (now : ℕ)
  | doc (e : DocEvent Blob Digest)
  /-- A received revocation, or one by the user. -/
  | revoke (targetLogId : Digest) (author : Bytes32)
  /-- An affirmation of a revision, or an editor that comes or goes. -/
  | feedWorthy
  /-- An entry of an interpretation sync. -/
  | importInterp (interpKey body : String) (authorPk : Bytes32) (authorSig : Sig) (now : ℕ)
  | setFeedSender
  | feedActivated (eventId : Digest) (now : ℕ)
  | feedSetRead (eventId : Digest) (read : Bool) (now : ℕ)
  | bellClicked (now : ℕ)
  | refreshBellBadge
  | other

/-- The id of a `BlockYouAuthoredWasEdited` card. -/
def blockEditedId (hash : Hash Digest) (asBytes : Digest → Bytes) (editOpId : Digest) : Digest :=
  hash (utf8 "block_you_authored_was_edited" ++ asBytes editOpId)

section Step

variable [DecidableEq C] [DecidableEq Digest]

namespace BellApp

/-- A session on what the store holds. With a chart, the first refresh is under way. -/
def sessionStart (device : Device Blob Digest) (db : Db Digest Sig) (chart : Bool) :
    BellApp Blob Digest Sig :=
  ⟨device, db, 0, if chart then 1 else 0, false, []⟩

variable (hash : Hash Digest) (asBytes : Digest → Bytes)
  (S : SignatureScheme Secret VerifyingKey Digest Sig) (L : Loro Blob C Digest)
  (ids : OpIds Blob Digest) (me : Bytes32) (s : BellApp Blob Digest Sig)

/-- Queue a refresh. -/
def queueRefresh : BellApp Blob Digest Sig := { s with queued := s.queued + 1 }

/-- The feed keeps the card it has of an id. -/
def raiseCard (eventId : Digest) : BellApp Blob Digest Sig :=
  if s.cards.any fun c => c.eventId = eventId then s
  else { s with cards := s.cards ++ [⟨eventId, false⟩] }

/-- The user sees to the cards that `p` names. -/
def acknowledge (p : Digest → Bool) : BellApp Blob Digest Sig :=
  { s with cards := s.cards.map fun c => { c with acknowledged := c.acknowledged || p c.eventId } }

/-- How many raised cards the user has not seen to. -/
def pendingCards : ℕ := s.cards.countP fun c => !c.acknowledged

/-- Tell the user of an edit: a card, if there is a feed, and one more on the bell. -/
def notice (eventId : Digest) : BellApp Blob Digest Sig :=
  { (if s.feedViewSender then s.raiseCard eventId else s) with
    feedTargetingUnread := s.feedTargetingUnread + 1 }

/-- One message. -/
def step : BellMsg Blob Digest Sig → BellApp Blob Digest Sig
  | .syncStateEvent muted event now =>
    let (db, item) := App.syncStateEvent hash asBytes S s.db me muted event now
    if item.isSome then { s with db }.queueRefresh else { s with db }
  | .doc (.docEdited op now) =>
    let told :=
      if youWereInRing s.device.store me op then
        s.notice (blockEditedId hash asBytes (ids.header op.header))
      else s
    { told with device := s.device.step L ids me (.docEdited op now) }.queueRefresh
  | .doc e => { s with device := s.device.step L ids me e }
  | .revoke targetLogId author =>
    { s with db := s.db.step hash asBytes S (.revokeInterp targetLogId author) }
  | .feedWorthy => s.queueRefresh
  | .importInterp interpKey body authorPk authorSig now =>
    { s with
      db := s.db.step hash asBytes S (.insertReceived interpKey body authorPk authorSig now) }
  | .setFeedSender => { s with feedViewSender := true }
  | .feedActivated eventId now =>
    ({ s with db := s.db.step hash asBytes S (.markEventRead eventId now) }.acknowledge
      fun id => id = eventId).queueRefresh
  | .feedSetRead eventId read now =>
    if read then
      ({ s with db := s.db.step hash asBytes S (.markEventRead eventId now) }.acknowledge
        fun id => id = eventId).queueRefresh
    else { s with db := s.db.step hash asBytes S (.markEventUnread eventId) }.queueRefresh
  | .bellClicked now =>
    ({ s with
        db := s.db.step hash asBytes S (.bulkMarkRead (s.db.feedTargetingUnreadIds me) now)
        }.acknowledge fun _ => true).queueRefresh
  | .refreshBellBadge =>
    { s with
      feedTargetingUnread := s.db.feedTargetingUnreadCount me
      queued := s.queued - 1 }
  | .other => s

/-- The state after the queued refreshes. -/
def settled : BellApp Blob Digest Sig :=
  exec (step hash asBytes S L ids me) s (List.replicate s.queued .refreshBellBadge)

end BellApp

end Step

section Definitions

variable [DecidableEq C] [DecidableEq Digest] (hash : Hash Digest) (asBytes : Digest → Bytes)
  (S : SignatureScheme Secret VerifyingKey Digest Sig) (L : Loro Blob C Digest)
  (ids : OpIds Blob Digest) (me : Bytes32) (s : BellApp Blob Digest Sig)

/-- Once the queued refreshes are handled, the bell counts what the store counts and the cards
that the user has not seen to. -/
def BadgeExact : Prop :=
  let s' := s.settled hash asBytes S L ids me
  s'.feedTargetingUnread = s'.db.feedTargetingUnreadCount me + s'.pendingCards

/-- The message raises no card. While no refresh is queued, it does not bring in a text by `me`
on which something is unread either. -/
def KeepsBadge : BellMsg Blob Digest Sig → Prop
  | .doc (.docEdited op _) =>
    s.feedViewSender = false ∨ youWereInRing s.device.store me op = false
  | .importInterp interpKey body authorPk authorSig _ =>
    s.queued ≠ 0 ∨
      ¬ (S.accepts authorPk (deriveLogId hash interpKey body) authorSig = true ∧
        s.db.interpretations.Free (deriveLogId hash interpKey body) ∧ authorPk = me ∧
        s.db.HasUnreadOn me (deriveLogId hash interpKey body))
  | _ => True

end Definitions

/-! ## The queued refreshes -/

section Runs

variable [DecidableEq C] [DecidableEq Digest] {hash : Hash Digest} {asBytes : Digest → Bytes}
  {S : SignatureScheme Secret VerifyingKey Digest Sig} {L : Loro Blob C Digest}
  {ids : OpIds Blob Digest} {me : Bytes32} {s : BellApp Blob Digest Sig}

theorem exec_refreshes (n : ℕ) (s : BellApp Blob Digest Sig) (queued : s.queued = n) :
    exec (BellApp.step hash asBytes S L ids me) s (List.replicate n .refreshBellBadge) =
      if n = 0 then s
      else { s with feedTargetingUnread := s.db.feedTargetingUnreadCount me, queued := 0 } := by
  induction n generalizing s with
  | zero => rfl
  | succ n ih =>
    rw [List.replicate_succ, exec_cons, ih _ (by simp [BellApp.step, queued]),
      if_neg n.succ_ne_zero]
    split_ifs with last
    · simp [BellApp.step, queued, last]
    · rfl

/-- As long as no card was raised, a queued refresh makes the number exact. -/
theorem badgeExact_iff (noCards : s.cards = []) : BadgeExact hash asBytes S L ids me s ↔
    s.queued ≠ 0 ∨ s.feedTargetingUnread = s.db.feedTargetingUnreadCount me := by
  rw [BadgeExact, BellApp.settled, exec_refreshes _ _ rfl]
  split_ifs with idle <;> simp [BellApp.pendingCards, noCards, idle]

theorem badgeExact_of_queued (noCards : s.cards = []) (queued : s.queued ≠ 0) :
    BadgeExact hash asBytes S L ids me s := (badgeExact_iff noCards).2 (.inl queued)

/-- A raised card is on the bell only until the next refresh. -/
theorem not_badgeExact_of_card (queued : s.queued ≠ 0) (card : s.pendingCards ≠ 0) :
    ¬ BadgeExact hash asBytes S L ids me s := by
  rw [BadgeExact, BellApp.settled, exec_refreshes _ _ rfl, if_neg queued]
  intro isExact
  exact card (Nat.add_eq_left.1 isExact.symm)

/-- The number stays exact when the store counts as before. -/
theorem BadgeExact.of_count {s' : BellApp Blob Digest Sig} (noCards : s.cards = [])
    (isExact : BadgeExact hash asBytes S L ids me s) (cards : s'.cards = s.cards)
    (queued : s'.queued = s.queued) (number : s'.feedTargetingUnread = s.feedTargetingUnread)
    (count : s'.db.feedTargetingUnreadCount me = s.db.feedTargetingUnreadCount me) :
    BadgeExact hash asBytes S L ids me s' := by
  rw [badgeExact_iff (cards.trans noCards), queued, number, count]
  exact (badgeExact_iff noCards).1 isExact

/-! ## What the messages do to the store -/

/-- Without an item nothing was written. -/
theorem syncStateEvent_none {db : Db Digest Sig} {muted : Bytes32 → Bool}
    {event : SocialEvent Digest} {now : ℕ}
    (none : (syncStateEvent hash asBytes S db me muted event now).2.isSome = false) :
    (syncStateEvent hash asBytes S db me muted event now).1 = db := by
  unfold syncStateEvent at none ⊢
  split_ifs at none ⊢ with silent new
  · rfl
  · cases none
  · dsimp only
    cases event with
    | interpAuthored opId author interpKey body =>
      have taken := of_decide_eq_false (Bool.eq_false_iff.2 new)
      exact congrArg (Db.mk · db.affirmations db.feedRead) (Table.insertOrIgnore_of_taken taken)
    | affirmAdded targetLogId voter =>
      refine congrArg (Db.mk db.interpretations · db.feedRead) ?_
      unfold affirm
      split_ifs with again
      · rfl
      · refine Table.insertOrIgnore_of_taken fun free => new ?_
        simp [SocialEvent.persists, again, SocialEvent.rowId, free]
    | responseAdded opId parentLogId author body =>
      have taken := of_decide_eq_false (Bool.eq_false_iff.2 new)
      exact congrArg (Db.mk · db.affirmations db.feedRead) (Table.insertOrIgnore_of_taken taken)

theorem feedTargetingUnreadCount_revoke (db : Db Digest Sig) (targetLogId : Digest)
    (author me : Bytes32) :
    ({ db with interpretations := revokeInterp db.interpretations targetLogId author } :
      Db Digest Sig).feedTargetingUnreadCount me = db.feedTargetingUnreadCount me := by
  refine feedTargetingUnreadCount_update db me _ (InterpRow.logId_revoke targetLogId author) ?_ ?_
  all_goals
    intro r
    rw [InterpRow.revoke_eq]

/-- An import changes what is unread exactly if it brings in an own text on which something
is. -/
theorem feedTargetingUnreadCount_insertReceived (hash : Hash Digest) (asBytes : Digest → Bytes)
    (S : SignatureScheme Secret VerifyingKey Digest Sig) (db : Db Digest Sig) (me : Bytes32)
    (interpKey body : String) (authorPk : Bytes32) (authorSig : Sig) (now : ℕ) :
    (db.step hash asBytes S
        (.insertReceived interpKey body authorPk authorSig now)).feedTargetingUnreadCount me =
      db.feedTargetingUnreadCount me ↔
    ¬ (S.accepts authorPk (deriveLogId hash interpKey body) authorSig = true ∧
      db.interpretations.Free (deriveLogId hash interpKey body) ∧ authorPk = me ∧
      db.HasUnreadOn me (deriveLogId hash interpKey body)) := by
  unfold Db.step insertReceived
  dsimp only
  split_ifs with valid
  · by_cases free : db.interpretations.Free (deriveLogId hash interpKey body)
    · refine (feedTargetingUnreadCount_insertOrIgnore free rfl me).trans (not_congr ?_)
      simp [receivedRow, opRow, valid, free]
    · rw [Table.insertOrIgnore_of_taken free]
      simp [free]
  · simp [valid]

/-! ## The steps -/

/-- Without a card there is none after a message that meets the condition. -/
theorem cards_step (noCards : s.cards = []) (msg : BellMsg Blob Digest Sig)
    (keeps : KeepsBadge hash S me s msg) :
    (s.step hash asBytes S L ids me msg).cards = [] := by
  cases msg with
  | syncStateEvent muted event now =>
    simp only [BellApp.step]
    split_ifs <;> exact noCards
  | doc e =>
    cases e with
    | docEdited op now =>
      simp only [BellApp.step, BellApp.queueRefresh, BellApp.notice]
      rcases keeps with unmounted | outside
      · simp only [unmounted, Bool.false_eq_true, if_false]
        split_ifs <;> exact noCards
      · simpa only [outside, Bool.false_eq_true, if_false] using noCards
    | publishDocEdit interpKey newBody aiGenerated header now => exact noCards
    | docVetoProposed op now => exact noCards
    | proposeDocVeto interpKey target header now => exact noCards
    | restart => exact noCards
  | feedSetRead eventId read now =>
    simp only [BellApp.step]
    split_ifs
    · exact congrArg (List.map _) noCards
    · exact noCards
  | feedActivated eventId now => exact congrArg (List.map _) noCards
  | bellClicked now => exact congrArg (List.map _) noCards
  | revoke targetLogId author => exact noCards
  | feedWorthy => exact noCards
  | importInterp interpKey body authorPk authorSig now => exact noCards
  | setFeedSender => exact noCards
  | refreshBellBadge => exact noCards
  | other => exact noCards

/-- One message. -/
theorem badgeExact_step_iff (noCards : s.cards = []) (msg : BellMsg Blob Digest Sig)
    (isExact : BadgeExact hash asBytes S L ids me s) :
    BadgeExact hash asBytes S L ids me (s.step hash asBytes S L ids me msg) ↔
      KeepsBadge hash S me s msg := by
  -- a handler that queues a refresh keeps the number exact, unless it raises a card
  have refreshed (keeps : KeepsBadge hash S me s msg)
      (queued : (s.step hash asBytes S L ids me msg).queued ≠ 0) :
      BadgeExact hash asBytes S L ids me (s.step hash asBytes S L ids me msg) :=
    badgeExact_of_queued (cards_step noCards msg keeps) queued
  cases msg with
  | syncStateEvent muted event now =>
    refine iff_of_true ?_ trivial
    cases item : (syncStateEvent hash asBytes S s.db me muted event now).2.isSome with
    | true => exact refreshed trivial (by simp [BellApp.step, item, BellApp.queueRefresh])
    | false =>
      have unchanged := syncStateEvent_none item
      simpa [BellApp.step, item, unchanged] using isExact
  | doc e =>
    cases e with
    | docEdited op now =>
      refine ⟨fun after => ?_, fun keeps => refreshed keeps (Nat.succ_ne_zero _)⟩
      by_contra raises
      obtain ⟨mounted, inRing⟩ : s.feedViewSender = true ∧
          youWereInRing s.device.store me op = true := by
        simpa [KeepsBadge] using raises
      refine not_badgeExact_of_card (Nat.succ_ne_zero _) ?_ after
      simp [BellApp.step, inRing, BellApp.notice, mounted, BellApp.raiseCard, noCards,
        BellApp.queueRefresh, BellApp.pendingCards]
    | publishDocEdit interpKey newBody aiGenerated header now =>
      exact iff_of_true (isExact.of_count noCards rfl rfl rfl rfl) trivial
    | docVetoProposed op now =>
      exact iff_of_true (isExact.of_count noCards rfl rfl rfl rfl) trivial
    | proposeDocVeto interpKey target header now =>
      exact iff_of_true (isExact.of_count noCards rfl rfl rfl rfl) trivial
    | restart => exact iff_of_true (isExact.of_count noCards rfl rfl rfl rfl) trivial
  | revoke targetLogId author =>
    refine iff_of_true (isExact.of_count noCards rfl rfl rfl ?_) trivial
    exact feedTargetingUnreadCount_revoke s.db targetLogId author me
  | importInterp interpKey body authorPk authorSig now =>
    have next : (s.step hash asBytes S L ids me
        (.importInterp interpKey body authorPk authorSig now)).cards = [] := noCards
    rw [badgeExact_iff next, KeepsBadge,
      ← feedTargetingUnreadCount_insertReceived hash asBytes S s.db me interpKey body authorPk
        authorSig now]
    refine or_congr_right' fun idle => ?_
    rw [← ((badgeExact_iff noCards).1 isExact).resolve_left idle]
    exact eq_comm
  | feedSetRead eventId read now =>
    refine iff_of_true (refreshed trivial ?_) trivial
    simp only [BellApp.step]
    split_ifs <;> exact Nat.succ_ne_zero _
  | feedWorthy => exact iff_of_true (refreshed trivial (Nat.succ_ne_zero _)) trivial
  | feedActivated eventId now =>
    exact iff_of_true (refreshed trivial (Nat.succ_ne_zero _)) trivial
  | bellClicked now => exact iff_of_true (refreshed trivial (Nat.succ_ne_zero _)) trivial
  | setFeedSender => exact iff_of_true (isExact.of_count noCards rfl rfl rfl rfl) trivial
  | refreshBellBadge =>
    have next : (s.step hash asBytes S L ids me .refreshBellBadge).cards = [] := noCards
    exact iff_of_true ((badgeExact_iff next).2 (.inr rfl)) trivial
  | other => exact iff_of_true isExact trivial

end Runs

/-- In every session the number is exact in every state exactly if the session starts with a
chart or with nothing unread, no message raises a card, and no import goes by the number. -/
theorem badge_exact_iff [DecidableEq C] [DecidableEq Digest] (hash : Hash Digest)
    (asBytes : Digest → Bytes) (S : SignatureScheme Secret VerifyingKey Digest Sig)
    (L : Loro Blob C Digest) (ids : OpIds Blob Digest) (me : Bytes32)
    (device : Device Blob Digest) (db : Db Digest Sig) (chart : Bool)
    (msgs : List (BellMsg Blob Digest Sig)) :
    Always (BellApp.step hash asBytes S L ids me) (BadgeExact hash asBytes S L ids me)
        (BellApp.sessionStart device db chart) msgs ↔
      (chart = true ∨ db.feedTargetingUnreadCount me = 0) ∧
        Along (BellApp.step hash asBytes S L ids me) (KeepsBadge hash S me)
          (BellApp.sessionStart device db chart) msgs := by
  have start : BadgeExact hash asBytes S L ids me (BellApp.sessionStart device db chart) ↔
      chart = true ∨ db.feedTargetingUnreadCount me = 0 := by
    rw [badgeExact_iff rfl]
    cases chart <;> simp [BellApp.sessionStart, eq_comm]
  rw [← start]
  have keep : ∀ (s : BellApp Blob Digest Sig) (msg : BellMsg Blob Digest Sig), s.cards = [] →
      True → KeepsBadge hash S me s msg → (s.step hash asBytes S L ids me msg).cards = [] :=
    fun s msg noCards _ keeps => cards_step noCards msg keeps
  exact Along.always_iff_of_ok keep (fun s msg noCards _ isExact =>
    badgeExact_step_iff noCards msg isExact) rfl (Along.of_mem fun _ _ _ => trivial)

/-! ## An edit of an own text -/

/-- Documents whose revisions are bytes. -/
def byteLoro : Loro (OpLog String) String Bytes :=
  { registerLoro with hash := id }

def byteIds : OpIds (OpLog String) Bytes where
  header h := 0 :: h.verifyingKey.toList ++ h.payloadHash.toList
  localEdit me baseRev _ := 1 :: me.toList ++ baseRev
  migrationEdit author text := 2 :: author.toList ++ utf8 text

/-- A session of a user who wrote a text before there were documents. -/
def ownTextSession : BellApp (OpLog String) Bytes (UInt8 × Bytes) :=
  BellApp.sessionStart
    (Device.firstStart byteLoro byteIds (keyOf 1) 100
      [⟨"sun.leo", none, [("warm", keyOf 1, 90)]⟩]) Db.empty true

/-- With the feed open, somebody edits that text. -/
def ownTextEdited : List (BellMsg (OpLog String) Bytes (UInt8 × Bytes)) :=
  [.setFeedSender, .refreshBellBadge, .doc (.docEdited (editOf 2 "loud" 300) 300)]

/-- The card is raised, and the refresh leaves no number for it. -/
theorem card_off_the_bell :
    let s := exec (BellApp.step id id symbolicSignatures byteLoro byteIds (keyOf 1))
      ownTextSession ownTextEdited
    s.pendingCards = 1 ∧
    (s.settled id id symbolicSignatures byteLoro byteIds (keyOf 1)).feedTargetingUnread = 0 ∧
    ¬ Always (BellApp.step id id symbolicSignatures byteLoro byteIds (keyOf 1))
      (BadgeExact id id symbolicSignatures byteLoro byteIds (keyOf 1))
      ownTextSession ownTextEdited := by
  refine ⟨by decide +kernel, by decide +kernel, fun always => ?_⟩
  exact absurd always.last (by unfold BadgeExact; decide +kernel)

end Zodia.App
