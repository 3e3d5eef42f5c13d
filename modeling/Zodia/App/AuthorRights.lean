import Zodia.App.DocRuns
import Zodia.App.VetoAuthority

/-!
# Authors and their own text

Whether an author keeps the rights over what they wrote, on their own device. An own edit is
applied by a path of its own: it names the edit by another id than the others know it by, and
pushes nobody onto a ring. So the device never counts its user among the authors of a block.

## Main definitions

* `youWereInRing` — whether an edit raises `BlockYouAuthoredWasEdited`.
* `KeepsRights` — the rights of an author in one state.

## Main results

* `author_keeps_rights_iff` — the rights are kept in the runs without an own edit.
* `own_entry_seeded` — the user is in a ring only for a text of the first start.
-/

namespace Zodia.App

open Lib Doc Store

variable {Blob C Digest : Type}

/-! ## The rights of an author -/

/-- Whether the edit touches a block in whose ring the device's user is when the edit
arrives. The handler then raises `BlockYouAuthoredWasEdited`. -/
def youWereInRing (st : DocStore Blob Digest) (me : Bytes32) (op : DocEdited Blob) : Bool :=
  decide (op.header.verifyingKey ≠ me) && op.affectedBlocks.any fun block =>
    (st.blockRingGet op.interpKey block).any fun e => decide (e.author = me)

namespace Tracked

variable (t : Tracked Blob Digest) (key : String) (block : BlockId) (edit : AppliedEdit)

/-- The edit is one that this device published for the document of `key`. -/
def OwnPublished : Prop :=
  ∃ op ∈ t.device.published, op.interpKey = key ∧ edit.header = some op.header

/-- The edit is among the last `ringSize` edits applied to the block. -/
def Recent : Prop := edit ∈ (t.applied.filter fun e => block ∈ e.blocks).take ringSize

end Tracked

section Definitions

variable [DecidableEq C] [DecidableEq Digest] (L : Loro Blob C Digest) (ids : OpIds Blob Digest)
  (me : Bytes32) (key : String)

/-- What an author may rely on who has published an edit of the document: they are in the
ring of the block, they are told when somebody edits it, they may veto that edit while the
window is open, and a veto of their own newest edit finds it under its published id. -/
structure KeepsRights (t : Tracked Blob Digest) : Prop where
  inRing : ∀ block edit, t.OwnPublished key edit → t.Recent block edit →
    ∃ e ∈ t.device.store.blockRingGet key block, e.author = me
  told : ∀ block edit (op : DocEdited Blob), t.OwnPublished key edit → t.Recent block edit →
    op.interpKey = key → op.header.verifyingKey ≠ me → block ∈ op.affectedBlocks →
    youWereInRing t.device.store me op
  vetoes : ∀ block edit (op : DocEdited Blob) (now vetoNow : ℕ), t.OwnPublished key edit →
    op.interpKey = key → op.header.verifyingKey ≠ me → block ∈ op.affectedBlocks →
    let t' := t.step L ids me key (.docEdited op now)
    t'.applied ≠ t.applied → t'.Recent block edit →
    vetoNow * 1000000 ≤ op.header.timestamp + vetoWindowMicros →
    (applyDocVeto L t'.device.store (ids.header op.header) me key vetoNow).isSome
  named : ∀ edit earlier (op : DocEdited Blob), op ∈ t.device.published → op.interpKey = key →
    t.applied = edit :: earlier → edit.header = some op.header →
    ∃ info, t.device.store.docLoadMeta key = some info ∧
      info.lastEditOpId = some (ids.header op.header)

/-- The event is an own edit of the document that is published. -/
def Publishes : DocEvent Blob Digest → Prop
  | .publishDocEdit interpKey _ _ (some _) _ => interpKey = key
  | _ => False

end Definitions

/-! ## Runs with and without an own edit -/

variable [DecidableEq C] [DecidableEq Digest] {L : Loro Blob C Digest} {ids : OpIds Blob Digest}
  {me : Bytes32} {key : String} {t : Tracked Blob Digest}

/-- Nothing was published for the document. -/
def Unpublished (key : String) (t : Tracked Blob Digest) : Prop :=
  ∀ op ∈ t.device.published, op.interpKey ≠ key

theorem Unpublished.step (h : Unpublished key t) {e : DocEvent Blob Digest}
    (quiet : ¬ Publishes key e) : Unpublished key (t.step L ids me key e) := by
  cases e with
  | publishDocEdit interpKey newBody aiGenerated header now =>
    cases header with
    | none => exact h
    | some header =>
      intro op hop
      rcases List.mem_cons.1 hop with rfl | old
      · exact quiet
      · exact h op old
  | docEdited op now => exact h
  | docVetoProposed op now => exact h
  | proposeDocVeto interpKey target header now => exact h
  | restart => exact h

/-- An author without an edit has no rights to lose. -/
theorem Unpublished.keepsRights (h : Unpublished key t) : KeepsRights L ids me key t where
  inRing _ _ := fun ⟨op, hop, same, _⟩ => absurd same (h op hop)
  told _ _ _ := fun ⟨op, hop, same, _⟩ => absurd same (h op hop)
  vetoes _ _ _ _ _ := fun ⟨op, hop, same, _⟩ => absurd same (h op hop)
  named _ _ op hop same := absurd same (h op hop)

/-- Right after an own edit, a veto of it under the published id does not find it. -/
theorem not_keepsRights_of_publishes (hids : ids.Ideal) {e : DocEvent Blob Digest}
    (publishes : Publishes key e) : ¬ KeepsRights L ids me key (t.step L ids me key e) := by
  intro rights
  cases e with
  | publishDocEdit interpKey newBody aiGenerated header now =>
    cases header with
    | none => exact publishes
    | some header =>
      obtain rfl : interpKey = key := publishes
      obtain ⟨info, stored, named⟩ := rights.named
        ⟨some header, me, (localUpdate L t.device.store me interpKey newBody).affectedBlocks⟩
        t.applied (t.device.publishes L me interpKey newBody aiGenerated header)
        List.mem_cons_self rfl (by simp [Tracked.step, Tracked.appliedAfter]) rfl
      have own : info.lastEditOpId =
          some (localEditId L ids t.device.store me interpKey newBody) := by
        simp only [Tracked.step, Device.step, publishDocEdit, DocStore.docSaveWithHistory,
          DocStore.docLoadMeta, Table.find?_upsert, if_true, Option.map_some,
          DocRow.columns] at stored
        obtain rfl := Option.some.inj stored
        rfl
      rw [own] at named
      exact hids.header_ne_local _ _ _ _ (Option.some.inj named).symm
  | docEdited op now => exact publishes
  | docVetoProposed op now => exact publishes
  | proposeDocVeto interpKey target header now => exact publishes
  | restart => exact publishes

/-- The author keeps their rights in every state of a run exactly if they publish no edit of
the document in it. -/
theorem author_keeps_rights_iff (hids : ids.Ideal) (L : Loro Blob C Digest) (me : Bytes32)
    (key : String) (start : ℕ) (keys : List LegacyKey) (es : List (DocEvent Blob Digest)) :
    Always (Tracked.step L ids me key) (KeepsRights L ids me key)
        (Tracked.firstStart L ids me start keys) es ↔
      ∀ e ∈ es, ¬ Publishes key e := by
  constructor
  · intro always
    generalize Tracked.firstStart L ids me start keys = t at always
    induction es generalizing t with
    | nil => simp
    | cons e es ih =>
      intro e' he' publishes
      rcases List.mem_cons.1 he' with rfl | later
      · exact not_keepsRights_of_publishes hids publishes always.2.start
      · exact ih _ always.2 e' later publishes
  · intro quiet
    have keep : ∀ (t : Tracked Blob Digest) (e : DocEvent Blob Digest), Unpublished key t →
        ¬ Publishes key e → Unpublished key (t.step L ids me key e) :=
      fun _ _ h quiet => h.step quiet
    exact Always.of_invariant keep (fun t h => h.keepsRights)
      (fun op hop => absurd hop List.not_mem_nil) (Along.of_forall quiet _)

/-! ## Own entries of the rings -/

/-- The entries of the user stand for texts of the first start. -/
def DocState.OwnSeeded (ids : OpIds Blob Digest) (me : Bytes32) (s : DocState C Digest) : Prop :=
  ∀ block, ∀ e ∈ s.rings block, e.author = me →
    ∃ author text, e.editOpId = ids.migrationEdit author text

theorem DocState.OwnSeeded.step {s : DocState C Digest} (seeded : s.OwnSeeded ids me)
    (e : DocEvent Blob Digest) : (s.step L ids me key e).OwnSeeded ids me := by
  have effect := DocState.effect_step L ids me key s e
  generalize s.step L ids me key e = s' at effect
  cases effect with
  | nothing => exact seeded
  | published => exact seeded
  | edited op now current same imported =>
    intro block entry hentry own
    rcases DocState.mem_rings_applyEdit hentry with ⟨other, rfl⟩ | old
    · exact absurd own other
    · exact seeded block entry old own
  | rolledBack _ target revoker now s' honoured =>
    obtain ⟨v, last, prior, -, -, -, -, -, rfl⟩ := DocState.applyVeto_eq_some.1 honoured
    exact fun block entry hentry => seeded block entry (Rings.mem_foldl_pop hentry)

/-- In every run, an entry of the device's user in a ring names a text of the first start and
never an edit. -/
theorem own_entry_seeded {P : OpLog C → Prop} (hL : L.Restores P) (ids : OpIds Blob Digest)
    (me : Bytes32) (start : ℕ) (keys : List LegacyKey) (es : List (DocEvent Blob Digest))
    (key : String) (block : BlockId) :
    let d := exec (Device.step L ids me) (Device.firstStart L ids me start keys) es
    ∀ e ∈ d.store.blockRingGet key block, e.author = me →
      ∃ author text, e.editOpId = ids.migrationEdit author text := by
  intro d
  obtain ⟨s₀, represents, seeded⟩ := Represents.firstStart hL ids me start keys key
  have start : s₀.OwnSeeded ids me := fun block e he _ => seeded.rings block e he
  have run : (exec (DocState.step L ids me key) s₀ es).OwnSeeded ids me :=
    exec_keeps (DocState.OwnSeeded ids me) (fun _ e h => h.step e) start es
  rw [(represents.exec hL ids me es).rings block]
  exact run block

/-! ## An own edit and an edit of it -/

/-- The user publishes an edit, and somebody else edits the block. -/
def ownThenOther : List (DocEvent (OpLog String) RegisterDigest) :=
  [.publishDocEdit "sun.leo" "proud" false (some (headerOf 1 0 100)) 1,
    .docEdited (editOf 2 "loud" 200) 2]

theorem author_keeps_rights_iff_ownThenOther :
    Always (Tracked.step registerLoro registerIds (keyOf 1) "sun.leo")
        (KeepsRights registerLoro registerIds (keyOf 1) "sun.leo")
        (Tracked.firstStart registerLoro registerIds (keyOf 1) 0 []) ownThenOther ↔
      ∀ e ∈ ownThenOther, ¬ Publishes "sun.leo" e :=
  author_keeps_rights_iff registerIds_ideal registerLoro (keyOf 1) "sun.leo" 0 [] ownThenOther

/-- The own edit is among the newest of its block, and yet its author is not in the ring, is
told nothing of the edit that follows and cannot veto it. -/
theorem author_without_rights :
    let t := exec (Tracked.step registerLoro registerIds (keyOf 1) "sun.leo")
      (Tracked.firstStart registerLoro registerIds (keyOf 1) 0 [])
    (t ownThenOther).OwnPublished "sun.leo" ⟨some (headerOf 1 0 100), keyOf 1, [bodyBlockId]⟩ ∧
      (t ownThenOther).Recent bodyBlockId ⟨some (headerOf 1 0 100), keyOf 1, [bodyBlockId]⟩ ∧
      (¬ ∃ e ∈ (t ownThenOther).device.store.blockRingGet "sun.leo" bodyBlockId,
        e.author = keyOf 1) ∧
      youWereInRing (t (ownThenOther.take 1)).device.store (keyOf 1) (editOf 2 "loud" 200) =
        false ∧
      applyDocVeto registerLoro (t ownThenOther).device.store
        (registerIds.header (editOf 2 "loud" 200).header) (keyOf 1) "sun.leo" 3 = none := by
  refine ⟨⟨_, List.mem_singleton.2 rfl, rfl, rfl⟩, ?_, ?_, ?_, ?_⟩
  · exact List.mem_of_mem_take (i := 2) (by decide)
  · decide
  · decide
  · decide

end Zodia.App
