import Zodia.App.DocState
import Zodia.App.RegisterDocs

/-!
# Veto authority

When a received veto rolls an edit back, and when it should. The check reads the edit's
header timestamp, in microseconds, as if it were in seconds, and compares it with the
clock of the device that handles the veto. So the window never closes, and the veto's own
timestamp is not looked at. An own edit stands under an id that no veto names, and the
first edit of a key has no snapshot before it.

## Main definitions

* `Tracked` — a device with the edits that are applied to one document.
* `VetoRule` — the veto is to be honoured.
* `JudgedRight` — when the check comes to the same.

## Main results

* `applyDocVeto_isSome_iff` — which vetoes are honoured.
* `veto_honoured_iff_rule` — a veto is judged by the rule exactly when `JudgedRight`.
-/

namespace Zodia.App

open Lib Doc Store

variable {Blob C Digest : Type}

/-! ## The applied edits -/

/-- An edit that is applied to a document: the header it was published under, if it was
published, its author and the blocks it affected. -/
structure AppliedEdit where
  header : Option OpHeader
  author : Bytes32
  blocks : List BlockId
  deriving DecidableEq

/-- A device, and the edits applied to one of its documents and not rolled back since, the
newest first. -/
structure Tracked (Blob Digest : Type) where
  device : Device Blob Digest
  applied : List AppliedEdit

section Tracked

variable [DecidableEq C] [DecidableEq Digest] (L : Loro Blob C Digest) (ids : OpIds Blob Digest)
  (me : Bytes32) (key : String)

/-- The applied edits after an event. -/
def Tracked.appliedAfter (t : Tracked Blob Digest) : DocEvent Blob Digest → List AppliedEdit
  | .publishDocEdit interpKey newBody _ header _ =>
    if interpKey = key then
      ⟨header, me, (localUpdate L t.device.store me interpKey newBody).affectedBlocks⟩ :: t.applied
    else t.applied
  | .docEdited op _ =>
    let edited := (openDoc L t.device.store me op.interpKey).bind fun doc =>
      doc.applyRemote L op.crdtUpdate
    if op.interpKey = key ∧ edited.isSome then
      ⟨some op.header, op.header.verifyingKey, op.affectedBlocks⟩ :: t.applied
    else t.applied
  | .docVetoProposed op now =>
    let rolledBack := applyDocVeto L t.device.store op.targetEditOpId op.header.verifyingKey
      op.interpKey now
    if op.interpKey = key ∧ rolledBack.isSome then t.applied.tail else t.applied
  | .proposeDocVeto interpKey target _ now =>
    let rolledBack := applyDocVeto L t.device.store target me interpKey now
    if interpKey = key ∧ rolledBack.isSome then t.applied.tail else t.applied
  | .restart => t.applied

def Tracked.step (t : Tracked Blob Digest) (e : DocEvent Blob Digest) : Tracked Blob Digest :=
  ⟨t.device.step L ids me e, t.appliedAfter L me key e⟩

end Tracked

/-- A device after its first start. -/
def Tracked.firstStart [DecidableEq C] (L : Loro Blob C Digest) (ids : OpIds Blob Digest)
    (me : Bytes32) (now : ℕ) (keys : List LegacyKey) : Tracked Blob Digest :=
  ⟨Device.firstStart L ids me now keys, []⟩

/-! ## The rule and the check -/

/-- The window in the unit of header timestamps. -/
def vetoWindowMicros : ℕ := vetoWindowDays * 86400 * 1000000

/-- The veto names the newest applied edit, published under `header`, and its author is in
the ring of a block this edit affected. -/
def Entitled (ids : OpIds Blob Digest) (t : Tracked Blob Digest) (op : DocVetoProposed Digest)
    (edit : AppliedEdit) (header : OpHeader) : Prop :=
  t.applied.head? = some edit ∧ edit.header = some header ∧
    ids.header header = op.targetEditOpId ∧ ∃ block ∈ edit.blocks,
      ∃ e ∈ t.device.store.blockRingGet op.interpKey block, e.author = op.header.verifyingKey

/-- A veto is to be honoured when its author is entitled to it and it was issued at most
`vetoWindowDays` after the edit. -/
def VetoRule (ids : OpIds Blob Digest) (t : Tracked Blob Digest) (op : DocVetoProposed Digest) :
    Prop :=
  ∃ edit header, Entitled ids t op edit header ∧
    op.header.timestamp ≤ header.timestamp + vetoWindowMicros

/-- There is a snapshot from before the newest edit. -/
def PriorStored (st : DocStore Blob Digest) (key : String) : Prop :=
  ∃ info, st.docLoadMeta key = some info ∧ info.priorSnapshot.isSome

/-- What the check asks of an entitled veto: the edit is not the device's own, there is a
snapshot to go back to, and the clock, in seconds, is at most `vetoWindowDays` beyond the
edit's timestamp, in microseconds. -/
def Passes (me : Bytes32) (t : Tracked Blob Digest) (op : DocVetoProposed Digest) (now : ℕ)
    (edit : AppliedEdit) (header : OpHeader) : Prop :=
  edit.author ≠ me ∧ PriorStored t.device.store op.interpKey ∧
    now - header.timestamp ≤ vetoWindowDays * 86400

/-- An entitled veto passes the check exactly when it was issued in time. -/
def JudgedRight (ids : OpIds Blob Digest) (me : Bytes32) (t : Tracked Blob Digest)
    (op : DocVetoProposed Digest) (now : ℕ) : Prop :=
  ∀ edit header, Entitled ids t op edit header →
    (op.header.timestamp ≤ header.timestamp + vetoWindowMicros ↔ Passes me t op now edit header)

/-! ## What the document knows of its edits -/

/-- How the stored newest edit stands for an applied one. An own edit has an id that no
other edit has; an edit of somebody else is the newest in the ring of each of its blocks. -/
structure Stands (ids : OpIds Blob Digest) (me : Bytes32) (rings : Rings Digest)
    (edit : AppliedEdit) (last : LastEdit Digest) : Prop where
  author : edit.author = last.author
  blocks : edit.blocks = last.blocks
  own : edit.author = me → (∃ rev update, last.opId = ids.localEdit me rev update) ∨
    ∃ header, header.verifyingKey = me ∧ last.opId = ids.header header
  foreign : edit.author ≠ me → ∃ header, edit.header = some header ∧
    last.opId = ids.header header ∧ last.ts = header.timestamp ∧
      ∀ block ∈ last.blocks, ∃ e, (rings block).getLast? = some e ∧ e.editOpId = last.opId

/-- The rings name edits of others, or the texts of the first start. -/
def NamesOthers (ids : OpIds Blob Digest) (me : Bytes32) (opId : Digest) : Prop :=
  (∃ header, header.verifyingKey ≠ me ∧ opId = ids.header header) ∨
    ∃ author text, opId = ids.migrationEdit author text

/-- The applied edits agree with the state of the document. -/
structure TracksState (ids : OpIds Blob Digest) (me : Bytes32) (applied : List AppliedEdit)
    (s : DocState C Digest) : Prop where
  rings : ∀ block, ∀ e ∈ s.rings block, NamesOthers ids me e.editOpId
  length : ∀ block, (s.rings block).length ≤ ringSize
  last : ∀ v last, s.version = some v → v.last = some last →
    ∃ edit earlier, applied = edit :: earlier ∧ Stands ids me s.rings edit last
  forgotten : ∀ v, s.version = some v → v.last = none → v.prior = none

/-- The applied edits agree with the store. -/
structure Tracks (L : Loro Blob C Digest) (ids : OpIds Blob Digest) (me : Bytes32) (key : String)
    (t : Tracked Blob Digest) (s : DocState C Digest) : Prop
    extends TracksState ids me t.applied s where
  represents : Represents L OneOpPerId t.device.store key s

variable {L : Loro Blob C Digest} {ids : OpIds Blob Digest} {me : Bytes32} {key : String}
  {t : Tracked Blob Digest} {s : DocState C Digest}

theorem NamesOthers.ne_local (hids : ids.Ideal) {opId : Digest} (named : NamesOthers ids me opId)
    (rev : Digest) (update : Blob) : opId ≠ ids.localEdit me rev update := by
  rcases named with ⟨header, -, rfl⟩ | ⟨author, text, rfl⟩
  · exact hids.header_ne_local header me rev update
  · exact hids.migration_ne_local author text me rev update

theorem NamesOthers.author_ne (hids : ids.Ideal) {header : OpHeader}
    (named : NamesOthers ids me (ids.header header)) : header.verifyingKey ≠ me := by
  rcases named with ⟨header', other, same⟩ | ⟨author, text, same⟩
  · exact hids.header_inj _ _ same ▸ other
  · exact absurd same (hids.header_ne_migration header author text)

/-- No ring names an own edit. -/
theorem Stands.not_own (hids : ids.Ideal) {rings : Rings Digest} {edit : AppliedEdit}
    {last : LastEdit Digest} (h : Stands ids me rings edit last)
    (named : NamesOthers ids me last.opId) : edit.author ≠ me := by
  intro own
  rcases h.own own with ⟨rev, update, localId⟩ | ⟨header, mine, headerId⟩
  · exact named.ne_local hids rev update localId
  · exact (headerId ▸ named).author_ne hids mine

theorem Tracks.priorStored_iff (h : Tracks L ids me key t s) :
    PriorStored t.device.store key ↔ ∃ v p, s.version = some v ∧ v.prior = some p := by
  unfold PriorStored
  rw [h.represents.docLoadMeta]
  constructor
  · rintro ⟨info, hinfo, prior⟩
    obtain ⟨v, hv, rfl⟩ := Option.map_eq_some_iff.1 hinfo
    obtain ⟨p, hp⟩ := Option.isSome_iff_exists.1 (Option.isSome_map .. ▸ prior)
    exact ⟨v, p, hv, hp⟩
  · rintro ⟨v, p, hv, hp⟩
    exact ⟨_, by rw [hv, Option.map_some], by simp [Version.columns, hp]⟩

/-! ## Which vetoes are honoured -/

section Honoured

variable [DecidableEq C] [DecidableEq Digest]

/-- A veto is honoured exactly when its author is entitled to it and it passes the check. -/
theorem applyDocVeto_isSome_iff (hL : L.KeepsIds) (hids : ids.Ideal)
    {op : DocVetoProposed Digest} (h : Tracks L ids me op.interpKey t s) (now : ℕ) :
    (applyDocVeto L t.device.store op.targetEditOpId op.header.verifyingKey op.interpKey
        now).isSome ↔
      ∃ edit header, Entitled ids t op edit header ∧ Passes me t op now edit header := by
  rw [(h.represents.applyDocVeto hL.restores _ _ now).1, Option.isSome_iff_exists]
  constructor
  · rintro ⟨s', honoured⟩
    obtain ⟨v, last, p, hv, hlast, hp, named, ⟨block, hblock, authorised⟩, -⟩ :=
      DocState.applyVeto_eq_some.1 honoured
    obtain ⟨edit, earlier, applied, stands⟩ := h.last v last hv hlast
    obtain ⟨e, newest, target⟩ := DocState.newest_of_authorised authorised
    have others := h.rings block e (List.mem_of_getLast? newest)
    rw [target, ← named] at others
    have foreign := stands.not_own hids others
    obtain ⟨header, published, opId, ts, -⟩ := stands.foreign foreign
    obtain ⟨⟨entry, hentry, author⟩, window, -⟩ := vetoAuthorised_iff.1 authorised
    obtain ⟨r, hr, rfl⟩ := List.mem_map.1 ((lastN_suffix _).subset hentry)
    refine ⟨edit, header, ⟨by simp [applied], published, opId ▸ named, block,
      stands.blocks ▸ hblock, r, ?_, author⟩, foreign, h.priorStored_iff.2 ⟨v, p, hv, hp⟩,
      ts ▸ window⟩
    rw [h.represents.rings block]
    exact hr
  · rintro ⟨edit, header, ⟨newest, published, named, block, hblock, r, hr, author⟩, foreign, stored,
      window⟩
    obtain ⟨v, p, hv, hp⟩ := h.priorStored_iff.1 stored
    cases hlast : v.last with
    | none => simp [h.forgotten v hv hlast] at hp
    | some last =>
      obtain ⟨edit', earlier, applied, stands⟩ := h.last v last hv hlast
      obtain rfl : edit' = edit := by simpa [applied] using newest
      obtain ⟨header', published', opId, ts, heads⟩ := stands.foreign foreign
      obtain rfl : header' = header := Option.some.inj (published'.symm.trans published)
      obtain ⟨e, he, head⟩ := heads block (stands.blocks ▸ hblock)
      rw [h.represents.rings block] at hr
      refine ⟨_, DocState.applyVeto_eq_some.2 ⟨v, last, p, hv, hlast, hp, opId.trans named,
        ⟨block, stands.blocks ▸ hblock, vetoAuthorised_iff.2
          ⟨⟨⟨r.author, r.editOpId, r.editedAt⟩, ?_, author⟩, ts ▸ window,
          ⟨e.author, e.editOpId, e.editedAt⟩, ?_, head.trans (opId.trans named)⟩⟩, rfl⟩⟩
      · rw [s.entries_vetoRing (h.length block)]
        exact List.mem_map.2 ⟨r, hr, rfl⟩
      · rw [DocState.newest_vetoRing, he, Option.map_some]

/-- Where the applied edits and the store agree, a veto is judged by the rule exactly when
an entitled one passes the check just in case it was issued in time. -/
theorem Tracks.judges_iff (hL : L.KeepsIds) (hids : ids.Ideal) {op : DocVetoProposed Digest}
    (h : Tracks L ids me op.interpKey t s) (now : ℕ) :
    ((applyDocVeto L t.device.store op.targetEditOpId op.header.verifyingKey op.interpKey
        now).isSome ↔ VetoRule ids t op) ↔ JudgedRight ids me t op now := by
  rw [applyDocVeto_isSome_iff hL hids h]
  constructor
  · intro judged edit header entitled
    constructor
    · intro inTime
      obtain ⟨edit', header', entitled', passes⟩ := judged.2 ⟨edit, header, entitled, inTime⟩
      obtain rfl : edit = edit' := Option.some.inj (entitled.1.symm.trans entitled'.1)
      obtain rfl : header = header' := Option.some.inj (entitled.2.1.symm.trans entitled'.2.1)
      exact passes
    · intro passes
      obtain ⟨edit', header', entitled', inTime⟩ := judged.1 ⟨edit, header, entitled, passes⟩
      obtain rfl : edit = edit' := Option.some.inj (entitled.1.symm.trans entitled'.1)
      obtain rfl : header = header' := Option.some.inj (entitled.2.1.symm.trans entitled'.2.1)
      exact inTime
  · intro right
    constructor
    · rintro ⟨edit, header, entitled, passes⟩
      exact ⟨edit, header, entitled, (right edit header entitled).2 passes⟩
    · rintro ⟨edit, header, entitled, inTime⟩
      exact ⟨edit, header, entitled, (right edit header entitled).1 inTime⟩

end Honoured

/-! ## What one event does -/

theorem TracksState.applyLocal [DecidableEq C] {applied : List AppliedEdit}
    (h : TracksState ids me applied s) (L : Loro Blob C Digest) (newBody : String)
    (header : Option OpHeader) (now : ℕ) :
    TracksState ids me (⟨header, me, [bodyBlockId]⟩ :: applied)
      (s.applyLocal L ids me newBody now) where
  rings := h.rings
  length := h.length
  last v last hv hlast := by
    obtain rfl := Option.some.inj hv
    obtain rfl := Option.some.inj hlast
    exact ⟨_, _, rfl, rfl, rfl, fun _ => .inl ⟨_, _, rfl⟩, fun other => absurd rfl other⟩
  forgotten v hv none := by
    obtain rfl := Option.some.inj hv
    cases none

/-- An edit of somebody else becomes the newest in the rings of its blocks. -/
theorem TracksState.applyEdit {applied : List AppliedEdit}
    (h : TracksState ids me applied s) {op : DocEdited Blob} {now : ℕ} {current : OpLog C}
    (imported : L.importInto s.opened op.crdtUpdate = some current) :
    TracksState ids me (⟨some op.header, op.header.verifyingKey, op.affectedBlocks⟩ :: applied)
      (s.applyEdit L me op.crdtUpdate (op.lastEdit ids) op.aiGenerated now) := by
  rw [DocState.applyEdit_of_import imported]
  by_cases own : (op.lastEdit ids).author = me
  · rw [if_pos own]
    refine ⟨h.rings, h.length, fun v last hv hlast => ?_, fun v hv none => ?_⟩
    · obtain rfl := Option.some.inj hv
      obtain rfl := Option.some.inj hlast
      exact ⟨_, _, rfl, rfl, rfl, fun _ => .inr ⟨op.header, own, rfl⟩,
        fun other => absurd own other⟩
    · obtain rfl := Option.some.inj hv
      cases none
  · rw [if_neg own]
    refine ⟨fun block e he => ?_, fun _ => Rings.length_foldl_push h.length,
      fun v last hv hlast => ?_, fun v hv none => ?_⟩
    · rcases Rings.mem_foldl_push he with rfl | old
      · exact .inl ⟨op.header, own, rfl⟩
      · exact h.rings block e old
    · obtain rfl := Option.some.inj hv
      obtain rfl := Option.some.inj hlast
      refine ⟨_, _, rfl, rfl, rfl, fun same => absurd same own, fun _ => ⟨op.header, rfl, rfl, rfl,
        fun block hblock => ⟨_, Rings.getLast?_foldl_push (h.length block) hblock, rfl⟩⟩⟩
    · obtain rfl := Option.some.inj hv
      cases none

theorem TracksState.applyVeto [DecidableEq Digest] {applied : List AppliedEdit}
    (h : TracksState ids me applied s) {target : Digest} {revoker : Bytes32} {now : ℕ}
    {s' : DocState C Digest} (honoured : s.applyVeto target revoker now = some s') :
    TracksState ids me applied.tail s' := by
  obtain ⟨w, last, prior, -, -, -, -, -, rfl⟩ := DocState.applyVeto_eq_some.1 honoured
  refine ⟨fun block e he => h.rings block e (Rings.mem_foldl_pop he),
    fun _ => Rings.length_foldl_pop h.length, fun v last hv hlast => ?_, fun v hv _ => ?_⟩
  · obtain rfl := Option.some.inj hv
    cases hlast
  · obtain rfl := Option.some.inj hv
    rfl

section Runs

variable [DecidableEq C] [DecidableEq Digest]

theorem Tracks.step (hL : L.KeepsIds) (h : Tracks L ids me key t s) (e : DocEvent Blob Digest) :
    Tracks L ids me key (t.step L ids me key e) (s.step L ids me key e) := by
  have represents := h.represents.step hL.restores ids me e
  suffices TracksState ids me (t.appliedAfter L me key e) (s.step L ids me key e) from
    ⟨this, represents⟩
  cases e with
  | publishDocEdit interpKey newBody aiGenerated header now =>
    dsimp only [Tracked.appliedAfter, DocState.step]
    split_ifs
    · exact h.applyLocal L newBody header now
    · exact h.toTracksState
  | docEdited op now =>
    dsimp only [Tracked.appliedAfter, DocState.step]
    by_cases same : op.interpKey = key
    · rw [same, h.represents.openDoc hL.restores, if_pos rfl]
      cases imported : L.importInto s.opened op.crdtUpdate with
      | none => simpa [InterpDoc.applyRemote, imported, DocState.applyEdit] using h.toTracksState
      | some current =>
        simpa [InterpDoc.applyRemote, imported] using h.toTracksState.applyEdit imported
    · simpa [same] using h.toTracksState
  | docVetoProposed op now =>
    dsimp only [Tracked.appliedAfter, DocState.step]
    by_cases same : op.interpKey = key
    · have agrees := (h.represents.applyDocVeto hL.restores op.targetEditOpId op.header.verifyingKey
        now).1
      cases honoured : s.applyVeto op.targetEditOpId op.header.verifyingKey now with
      | none => simpa [same, agrees, honoured] using h.toTracksState
      | some s' => simpa [same, agrees, honoured] using h.toTracksState.applyVeto honoured
    · simpa [same] using h.toTracksState
  | proposeDocVeto interpKey target header now =>
    dsimp only [Tracked.appliedAfter, DocState.step]
    by_cases same : interpKey = key
    · have agrees := (h.represents.applyDocVeto hL.restores target me now).1
      cases honoured : s.applyVeto target me now with
      | none => simpa [same, agrees, honoured] using h.toTracksState
      | some s' => simpa [same, agrees, honoured] using h.toTracksState.applyVeto honoured
    · simpa [same] using h.toTracksState
  | restart => exact h.toTracksState

theorem Tracks.exec (hL : L.KeepsIds) (h : Tracks L ids me key t s)
    (es : List (DocEvent Blob Digest)) :
    ∃ s', Tracks L ids me key (exec (Tracked.step L ids me key) t es) s' :=
  exec_keeps (fun t => ∃ s, Tracks L ids me key t s) (fun _ e ⟨_, tracks⟩ => ⟨_, tracks.step hL e⟩)
    ⟨s, h⟩ es

/-- In every reachable state, a received veto is judged by the rule exactly when an
entitled one passes the check just in case it was issued in time. -/
theorem veto_honoured_iff_rule (hL : L.KeepsIds) (hids : ids.Ideal) (me : Bytes32) (start : ℕ)
    (keys : List LegacyKey) (es : List (DocEvent Blob Digest)) (op : DocVetoProposed Digest)
    (now : ℕ) :
    let t := exec (Tracked.step L ids me op.interpKey) (Tracked.firstStart L ids me start keys) es
    ((applyDocVeto L t.device.store op.targetEditOpId op.header.verifyingKey op.interpKey
        now).isSome ↔ VetoRule ids t op) ↔ JudgedRight ids me t op now := by
  obtain ⟨s₀, represents, seeded⟩ :=
    Represents.firstStart hL.restores ids me start keys op.interpKey
  have tracks : Tracks L ids me op.interpKey (Tracked.firstStart L ids me start keys) s₀ := by
    refine ⟨⟨fun block e he => .inr (seeded.rings block e he), seeded.length,
      fun v last hv hlast => ?_, fun v hv _ => (seeded.version v hv).1⟩, represents⟩
    rw [(seeded.version v hv).2] at hlast
    cases hlast
  obtain ⟨s, h⟩ := tracks.exec hL es
  exact h.judges_iff hL hids now

end Runs

/-! ## A late veto -/

/-- Two edits, a thousand seconds apart. -/
def twoEdits : List (DocEvent (OpLog String) RegisterDigest) :=
  [.docEdited (editOf 2 "warm" (10 ^ 15)) (10 ^ 9),
    .docEdited (editOf 3 "cold" (10 ^ 15 + 10 ^ 9)) (10 ^ 9 + 1000)]

/-- A veto of the second edit by the author of the first, `days` after it. -/
def vetoAfter (days : ℕ) : DocVetoProposed RegisterDigest :=
  vetoOf 2 (editOf 3 "cold" (10 ^ 15 + 10 ^ 9)) (10 ^ 15 + 10 ^ 9 + days * 86400 * 1000000)

/-- A device that has seen the two edits. -/
def editedTwice : Tracked (OpLog String) RegisterDigest :=
  exec (Tracked.step registerLoro registerIds (keyOf 1) "sun.leo")
    (Tracked.firstStart registerLoro registerIds (keyOf 1) 0 []) twoEdits

/-- A veto three days after the edit is judged by the rule just in case it passes the
check. -/
theorem veto_honoured_iff_rule_early :
    ((applyDocVeto registerLoro editedTwice.device.store (vetoAfter 3).targetEditOpId
        (vetoAfter 3).header.verifyingKey (vetoAfter 3).interpKey (10 ^ 9 + 300000)).isSome ↔
      VetoRule registerIds editedTwice (vetoAfter 3)) ↔
    JudgedRight registerIds (keyOf 1) editedTwice (vetoAfter 3) (10 ^ 9 + 300000) :=
  veto_honoured_iff_rule registerLoro_keepsIds registerIds_ideal (keyOf 1) 0 [] twoEdits
    (vetoAfter 3) (10 ^ 9 + 300000)

theorem applied_editedTwice :
    editedTwice.applied.head? =
      some ⟨some (editOf 3 "cold" (10 ^ 15 + 10 ^ 9)).header, keyOf 3, [bodyBlockId]⟩ := by
  decide

/-- A veto eight days after the edit is honoured, against the rule. -/
theorem late_veto_honoured :
    (applyDocVeto registerLoro editedTwice.device.store (vetoAfter 8).targetEditOpId
        (vetoAfter 8).header.verifyingKey (vetoAfter 8).interpKey (10 ^ 9 + 700000)).isSome ∧
      ¬ VetoRule registerIds editedTwice (vetoAfter 8) := by
  refine ⟨by decide, ?_⟩
  rintro ⟨edit, header, ⟨newest, published, -⟩, inTime⟩
  rw [applied_editedTwice] at newest
  obtain rfl := Option.some.inj newest
  obtain rfl := Option.some.inj published
  exact absurd inTime (by decide)

end Zodia.App
