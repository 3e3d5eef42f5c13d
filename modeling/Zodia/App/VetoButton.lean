import Zodia.App.VetoAuthority

/-!
# The veto button

The page of a key lists the ring of its body, the newest entry first, and offers a veto of that
entry to whoever is in the ring. The handler of the click asks more: the entry has to be the
newest edit that was applied, and there has to be a snapshot from before it. Own edits go into no
ring, so the only entries of the user's own are those of the texts of the first start.

## Main definitions

* `vetoButtons` — the entries of a ring that get a button.
* `Wrote` — the user wrote a text of the key before there were documents.

## Main results

* `veto_button` — to whom a button is offered, and when a click is honoured.
-/

namespace Zodia.App

open Lib Doc Store

variable {Blob C Digest : Type}

/-- The edits with a veto button, on the page of the user `me`. -/
def vetoButtons (me : Bytes32) (ring : List (AuthorEntry Digest)) (now : ℕ) : List Digest :=
  let meInRing := ring.any fun e => decide (e.author = me)
  let newestIdx := ring.length - 1
  ring.zipIdx.reverse.filterMap fun (e, i) =>
    let isNewest := decide (i = newestIdx)
    let inWindow := decide (now - e.editedAt ≤ vetoWindowDays * 86400)
    let notSelf := decide (e.author ≠ me)
    if isNewest && meInRing && inWindow && notSelf then some e.editOpId else none

/-- Only the newest entry has a button, and only for somebody else in the ring. -/
theorem mem_vetoButtons {me : Bytes32} {ring : List (AuthorEntry Digest)} {now : ℕ}
    {target : Digest} :
    target ∈ vetoButtons me ring now ↔
      ∃ e, ring.getLast? = some e ∧ e.editOpId = target ∧ e.author ≠ me ∧
        now - e.editedAt ≤ vetoWindowDays * 86400 ∧ ∃ own ∈ ring, own.author = me := by
  simp only [vetoButtons, List.mem_filterMap, List.mem_reverse, List.mem_zipIdx_iff_getElem?,
    Prod.exists, List.getLast?_eq_getElem?]
  constructor
  · rintro ⟨e, i, at_, offered⟩
    split_ifs at offered with shown
    simp only [Bool.and_eq_true, decide_eq_true_eq, List.any_eq_true] at shown
    obtain ⟨⟨⟨rfl, own⟩, window⟩, other⟩ := shown
    exact ⟨e, at_, Option.some.inj offered, other, window, own⟩
  · rintro ⟨e, at_, rfl, other, window, own⟩
    refine ⟨e, _, at_, if_pos ?_⟩
    simp only [Bool.and_eq_true, decide_eq_true_eq, List.any_eq_true]
    exact ⟨⟨⟨trivial, own⟩, window⟩, other⟩

/-! ## Own entries -/

/-- The user wrote one of the texts that the document of `key` was made of. -/
def Wrote (keys : List LegacyKey) (key : String) (me : Bytes32) : Prop :=
  ∃ legacy ∈ keys, legacy.interpKey = key ∧ ∃ row ∈ legacy.rows, row.2.1 = me

/-- The entries of the user's own are in the ring of the body, for texts the user wrote. -/
def DocState.MineWritten (keys : List LegacyKey) (key : String) (me : Bytes32)
    (s : DocState C Digest) : Prop :=
  ∀ block, ∀ e ∈ s.rings block, e.author = me → block = bodyBlockId ∧ Wrote keys key me

variable {L : Loro Blob C Digest} {ids : OpIds Blob Digest} {me : Bytes32} {key : String}
  {keys : List LegacyKey} {s : DocState C Digest}

/-- What is in the rings after the first start. -/
theorem mem_firstStart [DecidableEq C] {now : ℕ} {block : BlockId} {e : AuthorEntry Digest}
    (mem : e ∈ (Device.firstStart L ids me now keys).store.blockRingGet key block)
    (own : e.author = me) : block = bodyBlockId ∧ Wrote keys key me := by
  have pushed : ∀ (interpKey : String) (rows : List (String × Bytes32 × ℕ))
      (st : DocStore Blob Digest),
      e ∈ (rows.foldl (fun st row => st.blockRingPush interpKey bodyBlockId
        ⟨row.2.1, ids.migrationEdit row.2.1 row.1, row.2.2, false⟩) st).blockRingGet key block →
      e ∈ st.blockRingGet key block ∨
        interpKey = key ∧ block = bodyBlockId ∧ ∃ row ∈ rows, row.2.1 = me := by
    intro interpKey rows
    induction rows with
    | nil => exact fun _ h => .inl h
    | cons row rows ih =>
      intro st h
      rcases ih _ h with old | ⟨same, body, r, hr, author⟩
      · rw [DocStore.blockRingGet_push] at old
        split_ifs at old with here
        · rcases List.mem_append.1 ((lastN_suffix _).subset old) with older | new
          · exact .inl older
          · obtain rfl := List.mem_singleton.1 new
            exact .inr ⟨here.1, here.2.symm, row, List.mem_cons_self, own⟩
        · exact .inl old
      · exact .inr ⟨same, body, r, List.mem_cons_of_mem _ hr, author⟩
  have migrated : ∀ (legacies : List LegacyKey) (st : DocStore Blob Digest),
      e ∈ (migrateInterpsToDocs L ids st me now legacies).blockRingGet key block →
      e ∈ st.blockRingGet key block ∨ block = bodyBlockId ∧ Wrote legacies key me := by
    intro legacies
    induction legacies with
    | nil => exact fun _ h => .inl h
    | cons legacy legacies ih =>
      intro st h
      rcases ih _ h with old | ⟨body, l, hl, wrote⟩
      · beta_reduce at old
        unfold migrateKey at old
        split_ifs at old
        · exact .inl old
        · rcases pushed legacy.interpKey legacy.rows _ old with older | ⟨same, body, row⟩
          · exact .inl older
          · exact .inr ⟨body, legacy, List.mem_cons_self, same, row⟩
      · exact .inr ⟨body, l, List.mem_cons_of_mem _ hl, wrote⟩
  rcases migrated keys DocStore.empty mem with none | written
  · exact absurd none List.not_mem_nil
  · exact written

theorem DocState.MineWritten.applyVeto [DecidableEq Digest] (h : s.MineWritten keys key me)
    {target : Digest} {revoker : Bytes32} {now : ℕ} :
    ((s.applyVeto target revoker now).getD s).MineWritten keys key me := by
  cases honoured : s.applyVeto target revoker now with
  | none => exact h
  | some s' =>
    obtain ⟨v, last, prior, -, -, -, -, -, rfl⟩ := DocState.applyVeto_eq_some.1 honoured
    exact fun block e he => h block e (Rings.mem_foldl_pop he)

variable [DecidableEq C] [DecidableEq Digest]

/-- No event makes an entry of the user's own. -/
theorem DocState.MineWritten.step (h : s.MineWritten keys key me) (e : DocEvent Blob Digest) :
    (s.step L ids me key e).MineWritten keys key me := by
  cases e with
  | publishDocEdit interpKey newBody aiGenerated header now =>
    simp only [DocState.step]
    split_ifs <;> exact h
  | docEdited op now =>
    simp only [DocState.step]
    split_ifs
    · intro block e he own
      rcases DocState.mem_rings_applyEdit he with ⟨other, rfl⟩ | old
      · exact absurd own other
      · exact h block e old own
    · exact h
  | docVetoProposed op now =>
    simp only [DocState.step]
    split_ifs
    · exact h.applyVeto
    · exact h
  | proposeDocVeto interpKey target header now =>
    simp only [DocState.step]
    split_ifs
    · exact h.applyVeto
    · exact h
  | restart => exact h

/-! ## Offered and honoured -/

/-- The run of a device agrees with the state of the document, and no event made an entry of the
user's own. -/
theorem exec_mineWritten (hL : L.KeepsIds) (ids : OpIds Blob Digest) (me : Bytes32) (key : String)
    (start : ℕ) (keys : List LegacyKey) (es : List (DocEvent Blob Digest)) :
    ∃ s, Tracks L ids me key
        (exec (Tracked.step L ids me key) (Tracked.firstStart L ids me start keys) es) s ∧
      s.MineWritten keys key me := by
  obtain ⟨s₀, represents, seeded⟩ := Represents.firstStart hL.restores ids me start keys key
  have tracks : Tracks L ids me key (Tracked.firstStart L ids me start keys) s₀ := by
    refine ⟨⟨fun block e he => .inr (seeded.rings block e he), seeded.length,
      fun v last hv hlast => ?_, fun v hv _ => (seeded.version v hv).1⟩, represents⟩
    rw [(seeded.version v hv).2] at hlast
    cases hlast
  have mine : s₀.MineWritten keys key me := by
    intro block e he own
    rw [← represents.rings] at he
    exact mem_firstStart he own
  exact exec_keeps (fun t => ∃ s, Tracks L ids me key t s ∧ s.MineWritten keys key me)
    (fun _ e ⟨_, h, written⟩ => ⟨_, h.step hL e, written.step e⟩) ⟨s₀, tracks, mine⟩ es

/-- In every state a device reaches: a veto is only offered to users who wrote one of the texts
that the document was made of, whatever they published since. A click on the button is honoured
if and only if its edit is the newest one that was applied, from somebody else, touched the body,
has a snapshot from before it and is not too old by the clock in seconds against its timestamp in
microseconds. -/
theorem veto_button (hL : L.KeepsIds) (hids : ids.Ideal) (me : Bytes32) (key : String)
    (start : ℕ) (keys : List LegacyKey) (es : List (DocEvent Blob Digest)) (target : Digest)
    (now clicked : ℕ) :
    let t := exec (Tracked.step L ids me key) (Tracked.firstStart L ids me start keys) es
    target ∈ vetoButtons me (t.device.store.blockRingGet key bodyBlockId) now →
    Wrote keys key me ∧
      ((applyDocVeto L t.device.store target me key clicked).isSome ↔
        ∃ edit header, t.applied.head? = some edit ∧ edit.header = some header ∧
          ids.header header = target ∧ edit.author ≠ me ∧ bodyBlockId ∈ edit.blocks ∧
          PriorStored t.device.store key ∧
          clicked - header.timestamp ≤ vetoWindowDays * 86400) := by
  intro t offered
  obtain ⟨s, h, written⟩ := exec_mineWritten hL ids me key start keys es
  obtain ⟨e, -, -, -, -, own, mem, mine⟩ := mem_vetoButtons.1 offered
  have inRing := mem
  rw [h.represents.rings] at mem
  refine ⟨(written bodyBlockId own mem mine).2, ?_⟩
  -- a veto of this user, as the handler judges it
  let op : DocVetoProposed Digest := ⟨⟨me, 0, 0, Vector.replicate 32 0⟩, key, target⟩
  have judged : (applyDocVeto L t.device.store op.targetEditOpId op.header.verifyingKey
      op.interpKey clicked).isSome ↔
      ∃ edit header, Entitled ids t op edit header ∧ Passes me t op clicked edit header :=
    applyDocVeto_isSome_iff hL hids h clicked
  refine judged.trans ⟨?_, ?_⟩
  · rintro ⟨edit, header, ⟨newest, published, named, block, hblock, r, hr, author⟩, other, stored,
      window⟩
    rw [h.represents.rings] at hr
    obtain rfl := (written block r hr author).1
    exact ⟨edit, header, newest, published, named, other, hblock, stored, window⟩
  · rintro ⟨edit, header, newest, published, named, other, body, stored, window⟩
    exact ⟨edit, header, ⟨newest, published, named, bodyBlockId, body, own, inRing, mine⟩, other,
      stored, window⟩

/-- A text of the user from before there were documents. -/
def oldText : List LegacyKey := [⟨"sun.leo", none, [("old", keyOf 1, 5)]⟩]

theorem veto_button_oldText :
    let t := exec (Tracked.step registerLoro registerIds (keyOf 1) "sun.leo")
      (Tracked.firstStart registerLoro registerIds (keyOf 1) 0 oldText)
      [.docEdited (editOf 2 "warm" (10 ^ 15)) (10 ^ 9)]
    let target : RegisterDigest := .header (editOf 2 "warm" (10 ^ 15)).header
    Wrote oldText "sun.leo" (keyOf 1) ∧
      ((applyDocVeto registerLoro t.device.store target (keyOf 1) "sun.leo" (10 ^ 9)).isSome ↔
        ∃ edit header, t.applied.head? = some edit ∧ edit.header = some header ∧
          registerIds.header header = target ∧ edit.author ≠ keyOf 1 ∧
          bodyBlockId ∈ edit.blocks ∧ PriorStored t.device.store "sun.leo" ∧
          10 ^ 9 - header.timestamp ≤ vetoWindowDays * 86400) :=
  veto_button registerLoro_keepsIds registerIds_ideal (keyOf 1) "sun.leo" 0 oldText
    [.docEdited (editOf 2 "warm" (10 ^ 15)) (10 ^ 9)]
    (.header (editOf 2 "warm" (10 ^ 15)).header) (10 ^ 9) (10 ^ 9) (by decide)

end Zodia.App
