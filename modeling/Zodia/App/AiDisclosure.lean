import Zodia.App.DocRuns
import Zodia.App.VetoAuthority

/-!
# Disclosure of drafted text

A reading shows a caption when a ring of its document has an entry that was drafted by a
model. The entries are pushed with the edits of others. An own edit pushes nothing, so its
flag is on the wire but not in the author's own store.

## Main definitions

* `Marked` — a device with the flags of the edits applied to one document.
* `Discloses` — the caption follows the newest edit.
* `FlagReachesRing` — the events after which it does.

## Main results

* `ai_disclosed` — the caption follows the newest edit in every run of such events.
* `own_draft_undisclosed` — an own edit that was drafted.
-/

namespace Zodia.App

open Lib Doc Store

variable {Blob C Digest : Type}

/-! ## The flags of the applied edits -/

/-- A device, the flags of the edits applied to one of its documents and not rolled back
since, the newest first, and whether an edit of the document was ever flagged. -/
structure Marked (Blob Digest : Type) where
  device : Device Blob Digest
  flags : List Bool
  ever : Bool

section Marked

variable [DecidableEq C] [DecidableEq Digest] (L : Loro Blob C Digest) (ids : OpIds Blob Digest)
  (me : Bytes32) (key : String)

/-- The flags after an event. -/
def Marked.flagsAfter (m : Marked Blob Digest) : DocEvent Blob Digest → List Bool
  | .publishDocEdit interpKey _ aiGenerated _ _ =>
    if interpKey = key then aiGenerated :: m.flags else m.flags
  | .docEdited op _ =>
    let edited := (openDoc L m.device.store me op.interpKey).bind fun doc =>
      doc.applyRemote L op.crdtUpdate
    if op.interpKey = key ∧ edited.isSome then op.aiGenerated :: m.flags else m.flags
  | .docVetoProposed op now =>
    let rolledBack := applyDocVeto L m.device.store op.targetEditOpId op.header.verifyingKey
      op.interpKey now
    if op.interpKey = key ∧ rolledBack.isSome then m.flags.tail else m.flags
  | .proposeDocVeto interpKey target _ now =>
    let rolledBack := applyDocVeto L m.device.store target me interpKey now
    if interpKey = key ∧ rolledBack.isSome then m.flags.tail else m.flags
  | .restart => m.flags

/-- Whether the event is a flagged edit of the document. -/
def DocEvent.flagged : DocEvent Blob Digest → Bool
  | .publishDocEdit interpKey _ aiGenerated _ _ => decide (interpKey = key) && aiGenerated
  | .docEdited op _ => decide (op.interpKey = key) && op.aiGenerated
  | _ => false

def Marked.step (m : Marked Blob Digest) (e : DocEvent Blob Digest) : Marked Blob Digest :=
  ⟨m.device.step L ids me e, m.flagsAfter L me key e, m.ever || e.flagged key⟩

/-- A device after its first start. -/
def Marked.firstStart (now : ℕ) (keys : List LegacyKey) : Marked Blob Digest :=
  ⟨Device.firstStart L ids me now keys, [], false⟩

end Marked

/-- If the newest edit that was not rolled back is flagged, the document is shown as drafted,
and if none ever was, it is not. -/
structure Discloses (key : String) (m : Marked Blob Digest) : Prop where
  newest : m.flags.head? = some true → m.device.store.docHasAiGeneratedContent key = true
  never : m.ever = false → m.device.store.docHasAiGeneratedContent key = false

/-- A flagged edit comes from somebody else and names a block, and no edit names a block as
often as a ring has entries. -/
def FlagReachesRing (me : Bytes32) (key : String) : DocEvent Blob Digest → Prop
  | .publishDocEdit interpKey _ aiGenerated _ _ => interpKey = key → aiGenerated = false
  | .docEdited op _ => op.interpKey = key →
    (op.aiGenerated = true → op.header.verifyingKey ≠ me ∧ op.affectedBlocks ≠ []) ∧
      ∀ block, op.affectedBlocks.count block < ringSize
  | _ => True

/-! ## What the rings show -/

/-- The newest entry of a ring is flagged. -/
def Rings.NewestFlagged (rings : Rings Digest) : Prop :=
  ∃ block e, (rings block).getLast? = some e ∧ e.aiGenerated = true

/-- The rings show the newest flag, and they will show the one before it when the newest edit
is rolled back. An own edit is never rolled back, since its id is in no ring. -/
structure FlagsShown (ids : OpIds Blob Digest) (me : Bytes32) (flags : List Bool)
    (s : DocState C Digest) : Prop where
  bounded : s.Bounded
  others : ∀ block, ∀ e ∈ s.rings block, NamesOthers ids me e.editOpId
  newest : flags.head? = some true → s.rings.NewestFlagged
  before : ∀ v last prior, s.version = some v → v.last = some last → v.prior = some prior →
    NamesOthers ids me last.opId → flags.tail.head? = some true →
    (last.blocks.foldl Rings.pop s.rings).NewestFlagged

/-- No entry of the rings is flagged. -/
def DocState.Unflagged (s : DocState C Digest) : Prop :=
  ∀ block, ∀ e ∈ s.rings block, e.aiGenerated = false

variable {L : Loro Blob C Digest} {ids : OpIds Blob Digest} {me : Bytes32} {key : String}
  {s : DocState C Digest} {flags : List Bool}

/-- An own edit without a flag. -/
theorem FlagsShown.applyLocal [DecidableEq C] (hids : ids.Ideal) (h : FlagsShown ids me flags s)
    (newBody : String) (now : ℕ) :
    FlagsShown ids me (false :: flags) (s.applyLocal L ids me newBody now) where
  bounded := h.bounded
  others := h.others
  newest flagged := by cases flagged
  before v last prior hv hlast _ named _ := by
    obtain rfl := Option.some.inj hv
    obtain rfl := Option.some.inj hlast
    exact absurd rfl (named.ne_local hids _ _)

theorem FlagsShown.applyEdit (hids : ids.Ideal) (h : FlagsShown ids me flags s)
    {op : DocEdited Blob} {now : ℕ} {current : OpLog C}
    (imported : L.importInto s.opened op.crdtUpdate = some current)
    (reaches : (op.aiGenerated = true → op.header.verifyingKey ≠ me ∧ op.affectedBlocks ≠ []) ∧
      ∀ block, op.affectedBlocks.count block < ringSize) :
    FlagsShown ids me (op.aiGenerated :: flags)
      (s.applyEdit L me op.crdtUpdate (op.lastEdit ids) op.aiGenerated now) := by
  have bounded := h.bounded.edited L me op.crdtUpdate (op.lastEdit ids) op.aiGenerated now
  rw [DocState.applyEdit_of_import imported] at bounded ⊢
  by_cases own : (op.lastEdit ids).author = me
  · rw [if_pos own] at bounded ⊢
    refine ⟨bounded, h.others, fun flagged => ?_, fun v last prior hv hlast _ named _ => ?_⟩
    · exact absurd own (reaches.1 (Option.some.inj flagged)).1
    · obtain rfl := Option.some.inj hv
      obtain rfl := Option.some.inj hlast
      exact absurd own (named.author_ne hids)
  · rw [if_neg own] at bounded ⊢
    refine ⟨bounded, fun block e he => ?_, fun flagged => ?_,
      fun v last prior hv hlast _ _ below => ?_⟩
    · rcases Rings.mem_foldl_push he with rfl | old
      · exact .inl ⟨op.header, own, rfl⟩
      · exact h.others block e old
    · obtain ⟨block, hblock⟩ := List.exists_mem_of_ne_nil _ (reaches.1 (Option.some.inj flagged)).2
      exact ⟨block, _, Rings.getLast?_foldl_push (h.bounded block) hblock,
        Option.some.inj flagged⟩
    · -- the newest entry from before is the newest again when the pushes are popped
      obtain rfl := Option.some.inj hv
      obtain rfl := Option.some.inj hlast
      obtain ⟨block, e, newest, flagged⟩ := h.newest below
      exact ⟨block, e, Rings.getLast?_foldl_pop_push (h.bounded block) (reaches.2 block) newest,
        flagged⟩

/-- After a rollback the rings show the flag of the edit before. -/
theorem FlagsShown.applyVeto [DecidableEq Digest] (h : FlagsShown ids me flags s)
    {target : Digest} {revoker : Bytes32} {now : ℕ} {s' : DocState C Digest}
    (honoured : s.applyVeto target revoker now = some s') :
    FlagsShown ids me flags.tail s' := by
  obtain ⟨v, last, prior, hv, hlast, hprior, named, ⟨block, -, authorised⟩, rfl⟩ :=
    DocState.applyVeto_eq_some.1 honoured
  obtain ⟨e, newest, target⟩ := DocState.newest_of_authorised authorised
  have others : NamesOthers ids me last.opId :=
    named.trans target.symm ▸ h.others block e (List.mem_of_getLast? newest)
  refine ⟨fun block => Rings.length_foldl_pop h.bounded,
    fun block e he => h.others block e (Rings.mem_foldl_pop he),
    h.before v last prior hv hlast hprior others, fun w l p hw hl => ?_⟩
  obtain rfl := Option.some.inj hw
  cases hl

/-- An edit without a flag flags no entry. -/
theorem DocState.Unflagged.applyEdit (h : s.Unflagged) {update : Blob} {edit : LastEdit Digest}
    {now : ℕ} : (s.applyEdit L me update edit false now).Unflagged := by
  intro block e he
  rcases DocState.mem_rings_applyEdit he with ⟨-, rfl⟩ | old
  · rfl
  · exact h block e old

/-! ## Runs -/

/-- The flags agree with what is stored of the document. -/
structure Shows (L : Loro Blob C Digest) (P : OpLog C → Prop) (ids : OpIds Blob Digest)
    (me : Bytes32) (key : String) (m : Marked Blob Digest) (s : DocState C Digest) : Prop where
  represents : Represents L P m.device.store key s
  flags : FlagsShown ids me m.flags s
  unflagged : m.ever = false → s.Unflagged

theorem Rings.NewestFlagged.exists {rings : Rings Digest} (h : rings.NewestFlagged) :
    ∃ block, ∃ e ∈ rings block, e.aiGenerated = true := by
  obtain ⟨block, e, newest, flagged⟩ := h
  exact ⟨block, e, List.mem_of_getLast? newest, flagged⟩

theorem Shows.discloses {P : OpLog C → Prop} {m : Marked Blob Digest}
    (h : Shows L P ids me key m s) : Discloses key m where
  newest flagged := by
    simpa only [DocStore.docHasAiGeneratedContent_iff, h.represents.rings] using
      (h.flags.newest flagged).exists
  never none := by
    refine Bool.eq_false_iff.2 fun shown => ?_
    obtain ⟨block, e, he, drafted⟩ := DocStore.docHasAiGeneratedContent_iff.1 shown
    rw [h.represents.rings block] at he
    rw [h.unflagged none block e he] at drafted
    cases drafted

variable [DecidableEq C] [DecidableEq Digest]

/-- An honoured veto, received or proposed, pops the flag of the edit it rolls back. -/
theorem Shows.veto {P : OpLog C → Prop} (hL : L.Restores P) {m : Marked Blob Digest}
    (h : Shows L P ids me key m s) (target : Digest) (revoker : Bytes32) (now : ℕ) :
    FlagsShown ids me
        (if (App.applyDocVeto L m.device.store target revoker key now).isSome then m.flags.tail
          else m.flags)
        ((s.applyVeto target revoker now).getD s) ∧
      (m.ever = false → ((s.applyVeto target revoker now).getD s).Unflagged) := by
  have agrees := (h.represents.applyDocVeto hL target revoker now).1
  cases honoured : s.applyVeto target revoker now with
  | none => simpa [agrees, honoured] using ⟨h.flags, h.unflagged⟩
  | some s' =>
    refine ⟨by simpa [agrees, honoured] using h.flags.applyVeto honoured, fun none => ?_⟩
    obtain ⟨v, last, prior, -, -, -, -, -, rfl⟩ := DocState.applyVeto_eq_some.1 honoured
    exact fun block e he => h.unflagged none block e (Rings.mem_foldl_pop he)

theorem Shows.step {P : OpLog C → Prop} (hL : L.Restores P) (hids : ids.Ideal)
    {m : Marked Blob Digest} (h : Shows L P ids me key m s) {e : DocEvent Blob Digest}
    (reaches : FlagReachesRing me key e) :
    Shows L P ids me key (m.step L ids me key e) (s.step L ids me key e) := by
  have represents := h.represents.step hL ids me e
  suffices FlagsShown ids me (m.flagsAfter L me key e) (s.step L ids me key e) ∧
      ((m.ever || e.flagged key) = false → (s.step L ids me key e).Unflagged) from
    ⟨represents, this.1, this.2⟩
  cases e with
  | publishDocEdit interpKey newBody aiGenerated header now =>
    by_cases same : interpKey = key
    · obtain rfl : aiGenerated = false := reaches same
      simp only [Marked.flagsAfter, DocState.step, if_pos same, DocEvent.flagged, Bool.and_false,
        Bool.or_false]
      exact ⟨h.flags.applyLocal hids newBody now, h.unflagged⟩
    · simpa [Marked.flagsAfter, DocState.step, DocEvent.flagged, same] using
        ⟨h.flags, h.unflagged⟩
  | docEdited op now =>
    by_cases same : op.interpKey = key
    · have opened := h.represents.openDoc hL me
      subst same
      simp only [Marked.flagsAfter, DocState.step, if_true, true_and, DocEvent.flagged, opened,
        Option.bind_some, InterpDoc.applyRemote, Option.isSome_map, decide_true, Bool.true_and,
        Bool.or_eq_false_iff]
      cases imported : L.importInto s.opened op.crdtUpdate with
      | none =>
        rw [DocState.applyEdit_of_refused imported]
        simpa using ⟨h.flags, fun none _ => h.unflagged none⟩
      | some current =>
        refine ⟨by simpa using h.flags.applyEdit hids imported (reaches rfl), ?_⟩
        rintro ⟨none, unflagged⟩
        rw [unflagged]
        exact (h.unflagged none).applyEdit
    · simpa [Marked.flagsAfter, DocState.step, DocEvent.flagged, same] using
        ⟨h.flags, h.unflagged⟩
  | docVetoProposed op now =>
    by_cases same : op.interpKey = key
    · subst same
      simpa [Marked.flagsAfter, DocState.step, DocEvent.flagged] using
        h.veto hL op.targetEditOpId op.header.verifyingKey now
    · simpa [Marked.flagsAfter, DocState.step, DocEvent.flagged, same] using
        ⟨h.flags, h.unflagged⟩
  | proposeDocVeto interpKey target header now =>
    by_cases same : interpKey = key
    · subst same
      simpa [Marked.flagsAfter, DocState.step, DocEvent.flagged] using h.veto hL target me now
    · simpa [Marked.flagsAfter, DocState.step, DocEvent.flagged, same] using
        ⟨h.flags, h.unflagged⟩
  | restart => simpa [Marked.flagsAfter, DocState.step, DocEvent.flagged] using
      ⟨h.flags, h.unflagged⟩

/-! ## The first start -/

omit [DecidableEq Digest] in
/-- The texts of the first start are pushed without a flag. -/
theorem unflagged_firstStart (L : Loro Blob C Digest) (ids : OpIds Blob Digest) (me : Bytes32)
    (now : ℕ) (keys : List LegacyKey) (key : String) (block : BlockId) :
    ∀ e ∈ (Device.firstStart L ids me now keys).store.blockRingGet key block,
      e.aiGenerated = false := by
  have pushed : ∀ (interpKey : String) (rows : List (String × Bytes32 × ℕ))
      (st : DocStore Blob Digest), (∀ e ∈ st.blockRingGet key block, e.aiGenerated = false) →
      ∀ e ∈ (rows.foldl (fun st row => st.blockRingPush interpKey bodyBlockId
        ⟨row.2.1, ids.migrationEdit row.2.1 row.1, row.2.2, false⟩) st).blockRingGet key block,
        e.aiGenerated = false := by
    intro interpKey rows
    induction rows with
    | nil => exact fun _ h => h
    | cons row rows ih =>
      refine fun st h => ih _ fun e he => ?_
      rw [DocStore.blockRingGet_push] at he
      split_ifs at he
      · rcases List.mem_append.1 ((lastN_suffix _).subset he) with old | new
        · exact h e old
        · rw [List.mem_singleton.1 new]
      · exact h e he
  have migrated : ∀ st : DocStore Blob Digest,
      (∀ e ∈ st.blockRingGet key block, e.aiGenerated = false) →
      ∀ e ∈ (migrateInterpsToDocs L ids st me now keys).blockRingGet key block,
        e.aiGenerated = false := by
    induction keys with
    | nil => exact fun _ h => h
    | cons legacy keys ih =>
      refine fun st h => ih _ ?_
      beta_reduce
      unfold migrateKey
      split_ifs
      · exact h
      · exact pushed legacy.interpKey legacy.rows _ h
  exact migrated DocStore.empty fun e he => absurd he List.not_mem_nil

omit [DecidableEq Digest] in
theorem Shows.firstStart {P : OpLog C → Prop} (hL : L.Restores P) (ids : OpIds Blob Digest)
    (me : Bytes32) (key : String) (start : ℕ) (keys : List LegacyKey) :
    ∃ s, Shows L P ids me key (Marked.firstStart L ids me start keys) s := by
  obtain ⟨s, represents, seeded⟩ := Represents.firstStart hL ids me start keys key
  refine ⟨s, represents, ⟨seeded.length, fun block e he => .inr (seeded.rings block e he),
    fun none => (nomatch none), fun v last prior hv hlast => ?_⟩, fun _ block e he => ?_⟩
  · rw [(seeded.version v hv).2] at hlast
    cases hlast
  · rw [← represents.rings] at he
    exact unflagged_firstStart L ids me start keys key block e he

/-- In every state of a run whose flagged edits come from others and name a block, the
document is shown as drafted when its newest edit that was not rolled back is flagged, and is
not when none of its edits ever was. -/
theorem ai_disclosed {P : OpLog C → Prop} (hL : L.Restores P) (hids : ids.Ideal) (me : Bytes32)
    (key : String) (start : ℕ) (keys : List LegacyKey) (es : List (DocEvent Blob Digest))
    (reaches : ∀ e ∈ es, FlagReachesRing me key e) :
    Always (Marked.step L ids me key) (Discloses key) (Marked.firstStart L ids me start keys)
      es := by
  have keep : ∀ (m : Marked Blob Digest) (e : DocEvent Blob Digest),
      (∃ s, Shows L P ids me key m s) → FlagReachesRing me key e →
      ∃ s, Shows L P ids me key (m.step L ids me key e) s := by
    rintro m e ⟨s, h⟩ reaches
    exact ⟨_, h.step hL hids reaches⟩
  have grant : ∀ m : Marked Blob Digest, (∃ s, Shows L P ids me key m s) → Discloses key m := by
    rintro m ⟨s, h⟩
    exact h.discloses
  exact Always.of_invariant keep grant (Shows.firstStart hL ids me key start keys)
    (Along.of_forall reaches _)

/-! ## A drafted edit of another and an own one -/

/-- Somebody else publishes a drafted edit. -/
def otherDraft : DocEvent (OpLog String) RegisterDigest :=
  .docEdited { editOf 2 "dreamt" 200 with aiGenerated := true } 2

theorem ai_disclosed_otherDraft :
    Always (Marked.step registerLoro registerIds (keyOf 1) "sun.leo") (Discloses "sun.leo")
      (Marked.firstStart registerLoro registerIds (keyOf 1) 0 []) [otherDraft] :=
  ai_disclosed registerLoro_keepsIds.restores registerIds_ideal (keyOf 1) "sun.leo" 0 []
    [otherDraft] fun e he => by
      obtain rfl := List.mem_singleton.1 he
      exact fun _ => ⟨fun _ => by decide, fun block =>
        List.count_le_length.trans_lt (by decide)⟩

/-- The user drafts an edit themselves. -/
def ownDraft : DocEvent (OpLog String) RegisterDigest :=
  .publishDocEdit "sun.leo" "dreamt" true (some (headerOf 1 0 100)) 1

/-- The newest edit is drafted, and the author's own store does not say so. -/
theorem own_draft_undisclosed :
    ¬ Always (Marked.step registerLoro registerIds (keyOf 1) "sun.leo") (Discloses "sun.leo")
      (Marked.firstStart registerLoro registerIds (keyOf 1) 0 []) [ownDraft] := by
  intro always
  have after : Discloses "sun.leo" (Marked.step registerLoro registerIds (keyOf 1) "sun.leo"
    (Marked.firstStart registerLoro registerIds (keyOf 1) 0 []) ownDraft) := always.2
  have shown := after.newest (by decide)
  exact absurd shown (by decide)

end Zodia.App
