import Zodia.App.DocState
import Zodia.App.RegisterDocs

/-!
# Agreement of replicas

Two devices that process the same operations of a document. The operations of the document
are a set, and merge alike in any order. The snapshot a veto restores, what is stored of
the newest edit and the author rings follow the order of arrival, and a device stores its
own edit under an id and without a ring entry that the others do not have.

A run of the two devices is cut into rounds, in each of which both process the same
operations. The devices agree after every round in which what depends on the order comes
out alike.

## Main definitions

* `Handled` — an operation as a device processes it.
* `docView` — what the devices are to agree on.
* `RoundOk` — the rounds after which they do.

## Main results

* `replicas_agree` — two devices agree after every run of such rounds.
* `orders_disagree` — two edits in two orders leave two devices in disagreement.
-/

namespace Zodia.App

open Lib Doc Store

variable {Blob C Digest : Type}

/-! ## What a device processes -/

/-- The operations of documents that change the text. -/
inductive DocOp (Blob Digest : Type) where
  | edit (op : DocEdited Blob)
  | veto (op : DocVetoProposed Digest)
  deriving DecidableEq

/-- An operation on the device that processes it: the clock, and for an edit of the
device's own the revision it was made at. -/
structure Handled (Blob Digest : Type) where
  op : DocOp Blob Digest
  now : ℕ
  base : Option Digest

/-- The operations an edit brings. -/
def DocOp.update (L : Loro Blob C Digest) : DocOp Blob Digest → Option (OpLog C)
  | .edit op => L.decode op.crdtUpdate
  | .veto _ => none

/-- The blocks an edit affects. -/
def DocOp.blocks : DocOp Blob Digest → List BlockId
  | .edit op => op.affectedBlocks
  | .veto _ => []

namespace Device

variable [DecidableEq C] [DecidableEq Digest] (L : Loro Blob C Digest) (ids : OpIds Blob Digest)
  (me : Bytes32) (key : String)

/-- The operation on the document of `key` that the device processes in an event. What has
no header is not sent, and a veto of the device's own is sent when it is honoured. -/
def handles (d : Device Blob Digest) : DocEvent Blob Digest → Option (Handled Blob Digest)
  | .publishDocEdit interpKey newBody aiGenerated (some header) now =>
    if interpKey = key then
      some ⟨.edit (d.publishes L me interpKey newBody aiGenerated header), now,
        some ((openLocal L d.store me interpKey).currentRev L)⟩
    else none
  | .docEdited op now => if op.interpKey = key then some ⟨.edit op, now, none⟩ else none
  | .docVetoProposed op now => if op.interpKey = key then some ⟨.veto op, now, none⟩ else none
  | .proposeDocVeto interpKey target (some header) now =>
    if interpKey = key ∧ (applyDocVeto L d.store target me interpKey now).isSome then
      some ⟨.veto ⟨header, interpKey, target⟩, now, none⟩
    else none
  | _ => none

/-- What the device processes in a run. -/
def handled (d : Device Blob Digest) : List (DocEvent Blob Digest) → List (Handled Blob Digest)
  | [] => []
  | e :: es => (d.handles L me key e).toList ++ handled (d.step L ids me e) es

end Device

/-! ## What the devices are to agree on -/

/-- An entry of a ring, with the clock of its device or without it. -/
def shown (clock : Bool) (e : AuthorEntry Digest) : Bytes32 × Digest × Bool × Option ℕ :=
  (e.author, e.editOpId, e.aiGenerated, if clock then some e.editedAt else none)

/-- The text of a document, the newest edit, and the rings. -/
structure DocView (Digest : Type) where
  body : Option String
  lastEditAuthor : Option Bytes32
  lastEditOpId : Option Digest
  lastEditBlocks : Option Bytes
  rings : BlockId → List (Bytes32 × Digest × Bool × Option ℕ)

/-- What a device shows of a document. -/
def docView (L : Loro Blob C Digest) (clock : Bool) (st : DocStore Blob Digest)
    (me : Bytes32) (key : String) : DocView Digest where
  body := ((st.docLoad key).bind (InterpDoc.fromSnapshot L me)).map (·.bodyText L)
  lastEditAuthor := (st.docLoadMeta key).bind (·.lastEditAuthor)
  lastEditOpId := (st.docLoadMeta key).bind (·.lastEditOpId)
  lastEditBlocks := (st.docLoadMeta key).bind (·.lastEditBlocks)
  rings block := (st.blockRingGet key block).map (shown clock)

/-- Nothing is stored of the document. -/
def Untouched (st : DocStore Blob Digest) (key : String) : Prop :=
  st.docLoad key = none ∧ ∀ block, st.blockRingGet key block = []

/-! ## Rounds -/

section Rounds

variable [DecidableEq C] [DecidableEq Digest] (L : Loro Blob C Digest) (ids : OpIds Blob Digest)
  (key : String)

/-- The store has what it takes to honour a veto. -/
def Honours (st : DocStore Blob Digest) (target : Digest) (revoker : Bytes32) (now : ℕ) : Prop :=
  ∃ info ts prior, st.docLoadMeta key = some info ∧ info.lastEditOpId = some target ∧
    info.lastEditTs = some ts ∧ info.priorSnapshot = some prior ∧
    ∃ block ∈ decodeBlocks (info.lastEditBlocks.getD []),
      vetoAuthorised (vetoRing st key block) revoker target ts now = true

/-- An event of a round of edits: an own edit is sent, under the device's own key, and a
veto is not honoured. -/
def Quiet (me : Bytes32) (d : Device Blob Digest) : DocEvent Blob Digest → Prop
  | .publishDocEdit interpKey _ _ header _ =>
    interpKey = key → ∃ h, header = some h ∧ h.verifyingKey = me
  | .docVetoProposed op now =>
    op.interpKey = key → ¬ Honours key d.store op.targetEditOpId op.header.verifyingKey now
  | .proposeDocVeto interpKey target _ now =>
    interpKey = key → ¬ Honours key d.store target me now
  | .docEdited _ _ => True
  | .restart => True

/-- The edits that can be imported. -/
def effective (hs : List (Handled Blob Digest)) : List (Handled Blob Digest) :=
  hs.filter fun h => (h.op.update L).isSome

/-- The entries that edits of others push onto the ring of a block. -/
def Handled.pushes (me : Bytes32) (block : BlockId) (h : Handled Blob Digest) :
    List (AuthorEntry Digest) :=
  match h.op with
  | .edit op =>
    if op.header.verifyingKey = me then []
    else List.replicate (op.affectedBlocks.count block)
      ⟨op.header.verifyingKey, ids.header op.header, h.now, op.aiGenerated⟩
  | .veto _ => []

/-- The newest of these entries, as many as a ring holds. -/
def newestPushes (clock : Bool) (me : Bytes32) (hs : List (Handled Blob Digest))
    (block : BlockId) : List (Bytes32 × Digest × Bool × Option ℕ) :=
  lastN ringSize (((effective L hs).flatMap (·.pushes ids me block)).map (shown clock))

/-- The newest edit that can be imported, if there is one, is the same on both devices and
both received it, and the newest edits of others come in the same order for each block. -/
structure SameOrder (clock : Bool) (meA meB : Bytes32)
    (hsA hsB : List (Handled Blob Digest)) : Prop where
  newest : ((effective L hsA).getLast?).map (·.op) = ((effective L hsB).getLast?).map (·.op)
  receivedA : ∀ h ∈ (effective L hsA).getLast?, h.base = none
  receivedB : ∀ h ∈ (effective L hsB).getLast?, h.base = none
  rings : ∀ block,
    newestPushes L ids clock meA hsA block = newestPushes L ids clock meB hsB block

/-- A round of edits. -/
structure EditRound (clock : Bool) (meA meB : Bytes32) (dA dB : Device Blob Digest)
    (esA esB : List (DocEvent Blob Digest)) : Prop where
  quietA : Along (Device.step L ids meA) (Quiet key meA) dA esA
  quietB : Along (Device.step L ids meB) (Quiet key meB) dB esB
  order : SameOrder L ids clock meA meB (dA.handled L ids meA key esA)
    (dB.handled L ids meB key esB)

/-- The veto of an event, and the clock at which it is checked. -/
def DocEvent.veto (me : Bytes32) : DocEvent Blob Digest → Option (DocVetoProposed Digest × ℕ)
  | .docVetoProposed op now => some (op, now)
  | .proposeDocVeto interpKey target (some header) now =>
    if header.verifyingKey = me then some (⟨header, interpKey, target⟩, now) else none
  | _ => none

/-- Both devices handle one veto, and their clocks put it on the same side of the window. -/
def VetoRound (meA meB : Bytes32) (dA : Device Blob Digest)
    (esA esB : List (DocEvent Blob Digest)) : Prop :=
  ∃ eA eB op nowA nowB, esA = [eA] ∧ esB = [eB] ∧ eA.veto meA = some (op, nowA) ∧
    eB.veto meB = some (op, nowB) ∧
    ∀ info ts, dA.store.docLoadMeta key = some info → info.lastEditTs = some ts →
      (nowA - ts ≤ vetoWindowDays * 86400 ↔ nowB - ts ≤ vetoWindowDays * 86400)

/-- What the two devices do in a round. -/
abbrev Round (Blob Digest : Type) := List (DocEvent Blob Digest) × List (DocEvent Blob Digest)

def roundStep (meA meB : Bytes32) (d : Device Blob Digest × Device Blob Digest)
    (round : Round Blob Digest) : Device Blob Digest × Device Blob Digest :=
  (exec (Device.step L ids meA) d.1 round.1, exec (Device.step L ids meB) d.2 round.2)

/-- The devices process the same operations, in a round of edits or a round of one veto. -/
def RoundOk (clock : Bool) (meA meB : Bytes32) (d : Device Blob Digest × Device Blob Digest)
    (round : Round Blob Digest) : Prop :=
  ((d.1.handled L ids meA key round.1).map (·.op)).Perm
      ((d.2.handled L ids meB key round.2).map (·.op)) ∧
    (EditRound L ids key clock meA meB d.1 d.2 round.1 round.2 ∨
      VetoRound key meA meB d.1 round.1 round.2)

end Rounds

/-! ## What an operation does to the document -/

/-- What is stored of the edit on this device. -/
def Handled.lastEdit (ids : OpIds Blob Digest) (me : Bytes32) (h : Handled Blob Digest)
    (op : DocEdited Blob) : LastEdit Digest :=
  match h.base with
  | none => op.lastEdit ids
  | some base => ⟨ids.localEdit me base op.crdtUpdate, h.now, me, op.affectedBlocks⟩

/-- A veto of which the state is honoured is one of which the store has what it takes. -/
theorem Represents.honours [DecidableEq Digest] {L : Loro Blob C Digest} {P : OpLog C → Prop}
    {st : DocStore Blob Digest} {key : String} {s s' : DocState C Digest}
    (h : Represents L P st key s) {target : Digest} {revoker : Bytes32} {now : ℕ}
    (honoured : s.applyVeto target revoker now = some s') :
    Honours key st target revoker now := by
  obtain ⟨v, last, prior, hv, hlast, hprior, named, ⟨block, hblock, authorised⟩, -⟩ :=
    DocState.applyVeto_eq_some.1 honoured
  refine ⟨(v.columns L).2, last.ts, L.exportSnapshot prior, ?_, ?_, ?_, ?_, block, ?_, ?_⟩
  · rw [h.docLoadMeta, hv, Option.map_some]
  · simp [Version.columns, hlast, named]
  · simp [Version.columns, hlast]
  · simp [Version.columns, hprior]
  · simpa [Version.columns, hlast, decodeBlocks_encodeBlocks] using hblock
  · rw [vetoRing, h.rings block]
    exact authorised

section Edits

variable [DecidableEq C] {L : Loro Blob C Digest} {ids : OpIds Blob Digest} {me : Bytes32}
  {key : String} {s : DocState C Digest} {h : Handled Blob Digest} {hs : List (Handled Blob Digest)}

/-- The document after an operation of a round of edits. -/
def DocState.handle (L : Loro Blob C Digest) (ids : OpIds Blob Digest) (me : Bytes32)
    (s : DocState C Digest) (h : Handled Blob Digest) : DocState C Digest :=
  match h.op with
  | .veto _ => s
  | .edit op =>
    match L.decode op.crdtUpdate with
    | none => s
    | some u =>
      ⟨some ⟨s.opened ∪ u, s.version.map Version.current, some (h.lastEdit ids me op)⟩,
        if op.header.verifyingKey = me then s.rings
        else op.affectedBlocks.foldl (·.push ⟨op.header.verifyingKey, ids.header op.header, h.now,
          op.aiGenerated⟩) s.rings⟩

/-- An operation that brings nothing leaves the document alone. -/
theorem handle_of_update (none : h.op.update L = none) : s.handle L ids me h = s := by
  unfold DocState.handle
  cases hop : h.op with
  | veto op => rfl
  | edit op =>
    rw [hop, DocOp.update] at none
    simp only [none]

theorem foldl_handle_effective :
    (effective L hs).foldl (·.handle L ids me) s = hs.foldl (·.handle L ids me) s := by
  induction hs generalizing s with
  | nil => rfl
  | cons h hs ih =>
    rw [effective, List.filter_cons]
    split_ifs with brings
    · exact ih
    · rw [List.foldl_cons, handle_of_update (by simpa using brings)]
      exact ih

variable [DecidableEq Digest] {d : Device Blob Digest}

/-- An event of a round of edits does to the document what the operation does that the
device processes in it. -/
theorem Represents.step_quiet (hL : L.SetUnion) (h : Represents L (fun _ => True) d.store key s)
    {e : DocEvent Blob Digest} (quiet : Quiet key me d e) :
    s.step L ids me key e = (d.handles L me key e).toList.foldl (·.handle L ids me) s := by
  cases e with
  | publishDocEdit interpKey newBody aiGenerated header now =>
    by_cases same : interpKey = key
    · obtain ⟨header, rfl, rfl⟩ := quiet same
      subst same
      have grows : s.opened ∪ s.committed L header.verifyingKey newBody =
          s.committed L header.verifyingKey newBody :=
        Finset.union_eq_right.2 (subset_commit _ _ _)
      simp [DocState.step, Device.handles, DocState.handle, DocState.applyLocal, Device.publishes,
        h.localUpdate hL.restores, hL.decode_updates, h.openLocal hL.restores, Handled.lastEdit,
        InterpDoc.currentRev, grows]
      rfl
    · cases header <;> simp [DocState.step, Device.handles, same]
  | docEdited op now =>
    by_cases same : op.interpKey = key
    · simp only [DocState.step, Device.handles, if_pos same, DocState.applyEdit, hL.import_union,
        Option.toList_some, List.foldl_cons, List.foldl_nil, DocState.handle]
      cases L.decode op.crdtUpdate <;> rfl
    · simp [DocState.step, Device.handles, same]
  | docVetoProposed op now =>
    by_cases same : op.interpKey = key
    · have refused : s.applyVeto op.targetEditOpId op.header.verifyingKey now = none :=
        Option.eq_none_iff_forall_ne_some.2 fun s' honoured => quiet same (h.honours honoured)
      simp [DocState.step, Device.handles, same, refused, DocState.handle]
    · simp [DocState.step, Device.handles, same]
  | proposeDocVeto interpKey target header now =>
    by_cases same : interpKey = key
    · have refused : s.applyVeto target me now = none :=
        Option.eq_none_iff_forall_ne_some.2 fun s' honoured => quiet same (h.honours honoured)
      have unsent := (h.applyDocVeto hL.restores target me now).1
      subst same
      cases header <;> simp_all [DocState.step, Device.handles]
    · cases header <;> simp [DocState.step, Device.handles, same]
  | restart => rfl

/-- A round of edits does to the document what the operations do. -/
theorem Represents.exec_quiet (hL : L.SetUnion) (h : Represents L (fun _ => True) d.store key s)
    {es : List (DocEvent Blob Digest)}
    (quiet : Along (Device.step L ids me) (Quiet key me) d es) :
    Lib.exec (DocState.step L ids me key) s es =
      (d.handled L ids me key es).foldl (·.handle L ids me) s := by
  induction es generalizing d s with
  | nil => rfl
  | cons e es ih =>
    rw [exec_cons, Device.handled, List.foldl_append, ← h.step_quiet hL quiet.1]
    exact ih (h.step hL.restores ids me e) quiet.2

end Edits

/-! ## Merging in any order -/

section Merge

variable [DecidableEq C] {L : Loro Blob C Digest} {ids : OpIds Blob Digest} {me : Bytes32}
  {s : DocState C Digest} {h : Handled Blob Digest} {hs : List (Handled Blob Digest)}

/-- The operations of a document after one more operation; `none` before the first. -/
def DocOp.mergeInto (L : Loro Blob C Digest) (current : Option (OpLog C)) (op : DocOp Blob Digest) :
    Option (OpLog C) :=
  match op.update L with
  | none => current
  | some u => some (current.getD ∅ ∪ u)

instance :
    RightCommutative (DocOp.mergeInto L : _ → DocOp Blob Digest → Option (OpLog C)) where
  right_comm current op op' := by
    unfold DocOp.mergeInto
    cases op.update L with
    | none => rfl
    | some u =>
      cases op'.update L with
      | none => rfl
      | some u' => exact congrArg some (Finset.union_right_comm _ u u')

theorem current_handle :
    (s.handle L ids me h).version.map Version.current =
      h.op.mergeInto L (s.version.map Version.current) := by
  unfold DocState.handle DocOp.mergeInto
  cases h.op with
  | veto op => rfl
  | edit op =>
    dsimp only [DocOp.update]
    cases L.decode op.crdtUpdate <;> rfl

theorem current_foldl_handle :
    (hs.foldl (·.handle L ids me) s).version.map Version.current =
      (hs.map (·.op)).foldl (DocOp.mergeInto L) (s.version.map Version.current) := by
  induction hs generalizing s with
  | nil => rfl
  | cons h hs ih => rw [List.foldl_cons, ih, current_handle, List.map_cons, List.foldl_cons]

end Merge

/-! ## The rings -/

section Rings

variable {ids : OpIds Blob Digest} {me : Bytes32}

variable [DecidableEq C] {L : Loro Blob C Digest} {s : DocState C Digest}
  {hs : List (Handled Blob Digest)} {block : BlockId}

theorem rings_handle (bound : (s.rings block).length ≤ ringSize) {h : Handled Blob Digest}
    (brings : (h.op.update L).isSome) :
    (s.handle L ids me h).rings block =
      lastN ringSize (s.rings block ++ h.pushes ids me block) := by
  unfold DocState.handle Handled.pushes
  cases hop : h.op with
  | veto op => simp [hop, DocOp.update] at brings
  | edit op =>
    rw [hop, DocOp.update] at brings
    obtain ⟨u, decoded⟩ := Option.isSome_iff_exists.1 brings
    simp only [decoded]
    split_ifs
    · rw [List.append_nil, lastN_of_length_le bound]
    · exact Rings.foldl_push bound op.affectedBlocks

/-- A ring after the edits of a round. -/
theorem rings_foldl_handle (bound : (s.rings block).length ≤ ringSize)
    (brings : ∀ h ∈ hs, (h.op.update L).isSome) :
    (hs.foldl (·.handle L ids me) s).rings block =
      lastN ringSize (s.rings block ++ hs.flatMap (·.pushes ids me block)) := by
  induction hs generalizing s with
  | nil => simp [lastN_of_length_le bound]
  | cons h hs ih =>
    have first : (s.handle L ids me h).rings block =
        lastN ringSize (s.rings block ++ h.pushes ids me block) :=
      rings_handle bound (brings h List.mem_cons_self)
    have rest := ih (s := s.handle L ids me h) (by rw [first, length_lastN]; omega)
      fun h' hh' => brings h' (List.mem_cons_of_mem h hh')
    rw [List.foldl_cons, rest, first, lastN_lastN_append, List.append_assoc, List.flatMap_cons]

end Rings

/-! ## Agreement -/

/-- The two devices hold the document in one version, and rings that show the same. -/
structure Agree (clock : Bool) (sA sB : DocState C Digest) : Prop where
  version : sA.version = sB.version
  rings : ∀ block, (sA.rings block).map (shown clock) = (sB.rings block).map (shown clock)
  bound : ∀ block, (sA.rings block).length ≤ ringSize

namespace Agree

variable {clock : Bool} {sA sB : DocState C Digest}

theorem boundB (agree : Agree clock sA sB) (block : BlockId) :
    (sB.rings block).length ≤ ringSize := by
  have same := congrArg List.length (agree.rings block)
  rw [List.length_map, List.length_map] at same
  exact same ▸ agree.bound block

/-! ### A round of edits -/

section Edits

variable [DecidableEq C] {L : Loro Blob C Digest} {ids : OpIds Blob Digest} {meA meB : Bytes32}
  {hsA hsB : List (Handled Blob Digest)}

/-- The version after the edits of a round, the newest of which was received. -/
theorem version_foldl_concat {me : Bytes32} {s : DocState C Digest}
    {hs : List (Handled Blob Digest)} {h : Handled Blob Digest} (received : h.base = none)
    {op : DocEdited Blob} (hop : h.op = .edit op) {u : OpLog C}
    (decoded : L.decode op.crdtUpdate = some u) :
    let prior := (hs.map (·.op)).foldl (DocOp.mergeInto L) (s.version.map Version.current)
    ((hs ++ [h]).foldl (·.handle L ids me) s).version =
      some ⟨prior.getD ∅ ∪ u, prior, some (op.lastEdit ids)⟩ := by
  rw [List.foldl_append, List.foldl_cons, List.foldl_nil]
  simp [DocState.handle, hop, decoded, DocState.opened, current_foldl_handle, Handled.lastEdit,
    received]

omit [DecidableEq C] in
theorem effective_perm (perm : (hsA.map (·.op)).Perm (hsB.map (·.op))) :
    ((effective L hsA).map (·.op)).Perm ((effective L hsB).map (·.op)) := by
  have filtered := perm.filter fun op => (op.update L).isSome
  rwa [List.filter_map, List.filter_map] at filtered

/-- The edits of a round leave the devices with one version. -/
theorem version_round (agree : Agree clock sA sB) (perm : (hsA.map (·.op)).Perm (hsB.map (·.op)))
    (newest : ((effective L hsA).getLast?).map (·.op) = ((effective L hsB).getLast?).map (·.op))
    (receivedA : ∀ h ∈ (effective L hsA).getLast?, h.base = none)
    (receivedB : ∀ h ∈ (effective L hsB).getLast?, h.base = none) :
    (hsA.foldl (·.handle L ids meA) sA).version = (hsB.foldl (·.handle L ids meB) sB).version := by
  have all := effective_perm (L := L) perm
  have brings : ∀ h ∈ effective L hsA, (h.op.update L).isSome := fun h hh =>
    (List.mem_filter.1 hh).2
  rw [← @foldl_handle_effective _ _ _ _ L ids meA sA hsA,
    ← @foldl_handle_effective _ _ _ _ L ids meB sB hsB]
  rcases List.eq_nil_or_concat (effective L hsA) with emptyA | ⟨hsA', hA, concatA⟩ <;>
    rcases List.eq_nil_or_concat (effective L hsB) with emptyB | ⟨hsB', hB, concatB⟩
  · rw [emptyA, emptyB]
    exact agree.version
  · simp [emptyA, concatB] at newest
  · simp [concatA, emptyB] at newest
  · simp only [List.concat_eq_append] at concatA concatB
    simp only [concatA, concatB, List.getLast?_concat, Option.map_some, Option.some.injEq,
      Option.mem_def, forall_eq'] at newest receivedA receivedB
    have hbrings := brings hA (by simp [concatA])
    cases hop : hA.op with
    | veto op => simp [hop, DocOp.update] at hbrings
    | edit op =>
      rw [hop, DocOp.update] at hbrings
      obtain ⟨u, decoded⟩ := Option.isSome_iff_exists.1 hbrings
      have earlier : (hsA'.map (·.op)).Perm (hsB'.map (·.op)) := by
        rw [concatA, concatB, List.map_append, List.map_append, List.map_singleton,
          List.map_singleton, newest] at all
        exact (List.perm_append_right_iff _).1 all
      rw [concatA, concatB, version_foldl_concat receivedA hop decoded,
        version_foldl_concat receivedB (newest ▸ hop) decoded, agree.version,
        earlier.foldl_eq]

end Edits

/-! ### A round of one veto -/

section Veto

variable [DecidableEq Digest]

/-- The check of a veto by what the ring shows. -/
theorem authorised_iff_shown {s : DocState C Digest} {block : BlockId}
    (bound : (s.rings block).length ≤ ringSize) (clock : Bool) {revoker : Bytes32} {target : Digest}
    {ts now : ℕ} :
    vetoAuthorised (s.vetoRing block) revoker target ts now = true ↔
      (∃ e ∈ (s.rings block).map (shown clock), e.1 = revoker) ∧
        now - ts ≤ vetoWindowDays * 86400 ∧
        ∃ e, ((s.rings block).map (shown clock)).getLast? = some e ∧ e.2.1 = target := by
  rw [vetoAuthorised_iff, s.entries_vetoRing bound, s.newest_vetoRing, List.getLast?_map]
  simp [shown]

omit [DecidableEq Digest] in
theorem pop_shown {clock : Bool} {ringsA ringsB : Rings Digest}
    (same : ∀ b, (ringsA b).map (shown clock) = (ringsB b).map (shown clock))
    (blocks : List BlockId) (b : BlockId) :
    (blocks.foldl Rings.pop ringsA b).map (shown clock) =
      (blocks.foldl Rings.pop ringsB b).map (shown clock) := by
  induction blocks generalizing ringsA ringsB with
  | nil => exact same b
  | cons block blocks ih =>
    apply ih
    intro b
    unfold Rings.pop
    split_ifs
    · rw [List.map_dropLast, List.map_dropLast, same b]
    · exact same b

/-- Devices that agree, with clocks on the same side of the window, agree on a veto. -/
theorem veto_round (agree : Agree clock sA sB) {target : Digest} {revoker : Bytes32}
    {nowA nowB : ℕ}
    (clocks : ∀ v last, sA.version = some v → v.last = some last →
      (nowA - last.ts ≤ vetoWindowDays * 86400 ↔ nowB - last.ts ≤ vetoWindowDays * 86400)) :
    Agree clock ((sA.applyVeto target revoker nowA).getD sA)
      ((sB.applyVeto target revoker nowB).getD sB) := by
  have authorised : ∀ v last block, sA.version = some v → v.last = some last →
      (vetoAuthorised (sA.vetoRing block) revoker target last.ts nowA = true ↔
        vetoAuthorised (sB.vetoRing block) revoker target last.ts nowB = true) := by
    intro v last block hv hlast
    rw [authorised_iff_shown (agree.bound block) clock,
      authorised_iff_shown (agree.boundB block) clock, agree.rings block, clocks v last hv hlast]
  cases honoured : sA.applyVeto target revoker nowA with
  | some s' =>
    obtain ⟨v, last, prior, hv, hlast, hprior, named, ⟨block, hblock, passes⟩, rfl⟩ :=
      DocState.applyVeto_eq_some.1 honoured
    have honouredB : sB.applyVeto target revoker nowB = some (sB.rolledBack prior last.blocks) :=
      DocState.applyVeto_eq_some.2 ⟨v, last, prior, agree.version ▸ hv, hlast, hprior, named,
        ⟨block, hblock, (authorised v last block hv hlast).1 passes⟩, rfl⟩
    rw [honouredB]
    exact ⟨rfl, pop_shown agree.rings last.blocks, fun _ => Rings.length_foldl_pop agree.bound⟩
  | none =>
    have refusedB : sB.applyVeto target revoker nowB = none := by
      apply Option.eq_none_iff_forall_ne_some.2
      intro s' honouredB
      obtain ⟨v, last, prior, hv, hlast, hprior, named, ⟨block, hblock, passes⟩, -⟩ :=
        DocState.applyVeto_eq_some.1 honouredB
      rw [← agree.version] at hv
      have honouredA := DocState.applyVeto_eq_some.2 ⟨v, last, prior, hv, hlast, hprior, named,
        ⟨block, hblock, (authorised v last block hv hlast).2 passes⟩, rfl⟩
      rw [honoured] at honouredA
      cases honouredA
    rw [refusedB]
    exact agree

end Veto

end Agree

/-! ## Runs of two devices -/

section Runs

variable {L : Loro Blob C Digest} {ids : OpIds Blob Digest} {clock : Bool} {meA meB : Bytes32}
  {key : String} {d : Device Blob Digest × Device Blob Digest}

/-- The stores of the two devices hold the document in agreement. -/
def Agreeing (L : Loro Blob C Digest) (clock : Bool) (key : String)
    (d : Device Blob Digest × Device Blob Digest) : Prop :=
  ∃ sA sB, Represents L (fun _ => True) d.1.store key sA ∧
    Represents L (fun _ => True) d.2.store key sB ∧ Agree clock sA sB

theorem Represents.untouched {st : DocStore Blob Digest} (untouched : Untouched st key) :
    Represents L (fun _ => True) st key (DocState.fresh : DocState C Digest) where
  row := by
    have nothing := untouched.1
    rw [DocStore.docLoad, Option.map_eq_none_iff] at nothing
    rw [nothing]
    rfl
  rings := untouched.2
  valid _ none := nomatch none

/-- Devices in agreement show the same of the document. -/
theorem Agreeing.docView (h : Agreeing L clock key d) (meA meB : Bytes32) :
    docView L clock d.1.store meA key = docView L clock d.2.store meB key := by
  obtain ⟨sA, sB, hA, hB, agree⟩ := h
  have rings : ∀ block, (d.1.store.blockRingGet key block).map (shown clock) =
      (d.2.store.blockRingGet key block).map (shown clock) := fun block => by
    rw [hA.rings block, hB.rings block, agree.rings block]
  have body : ∀ me bytes, ((InterpDoc.fromSnapshot L me bytes).map fun doc : InterpDoc C =>
      doc.bodyText L) = (L.importInto ∅ bytes).map L.bodyText := fun me bytes => by
    simp [InterpDoc.fromSnapshot, InterpDoc.bodyText, Function.comp_def]
  simp only [App.docView, hA.docLoad, hB.docLoad, hA.docLoadMeta, hB.docLoadMeta, agree.version,
    rings, Option.map_bind, Function.comp_def, body]

variable [DecidableEq C] [DecidableEq Digest]

/-- An event with a veto does to the document what the veto does. -/
theorem step_veto {me : Bytes32} {s : DocState C Digest} {e : DocEvent Blob Digest}
    {op : DocVetoProposed Digest} {now : ℕ} (veto : e.veto me = some (op, now)) :
    s.step L ids me key e =
      if op.interpKey = key then
        (s.applyVeto op.targetEditOpId op.header.verifyingKey now).getD s
      else s := by
  cases e with
  | docVetoProposed op' now' =>
    obtain ⟨rfl, rfl⟩ := Prod.mk.inj (Option.some.inj veto)
    rfl
  | proposeDocVeto interpKey target header now' =>
    cases header with
    | none => cases veto
    | some header =>
      simp only [DocEvent.veto] at veto
      split_ifs at veto with mine
      obtain ⟨rfl, rfl⟩ := Prod.mk.inj (Option.some.inj veto)
      subst mine
      rfl
  | publishDocEdit interpKey newBody aiGenerated header now' => cases veto
  | docEdited op' now' => cases veto
  | restart => cases veto

/-- Devices in agreement are in agreement after a round. -/
theorem Agreeing.round (hL : L.SetUnion) (h : Agreeing L clock key d) {r : Round Blob Digest}
    (ok : RoundOk L ids key clock meA meB d r) :
    Agreeing L clock key (roundStep L ids meA meB d r) := by
  obtain ⟨sA, sB, hA, hB, agree⟩ := h
  refine ⟨_, _, hA.exec hL.restores ids meA r.1, hB.exec hL.restores ids meB r.2, ?_⟩
  obtain ⟨perm, edits | veto⟩ := ok
  · rw [hA.exec_quiet hL edits.quietA, hB.exec_quiet hL edits.quietB]
    have ring : ∀ {me : Bytes32} {s : DocState C Digest} {hs : List (Handled Blob Digest)},
        (∀ block, (s.rings block).length ≤ ringSize) → ∀ block,
        (hs.foldl (·.handle L ids me) s).rings block =
          lastN ringSize (s.rings block ++ (effective L hs).flatMap (·.pushes ids me block)) := by
      intro me s hs bound block
      rw [← foldl_handle_effective]
      exact rings_foldl_handle (bound block) fun h hh => (List.mem_filter.1 hh).2
    refine ⟨agree.version_round perm edits.order.newest edits.order.receivedA
      edits.order.receivedB, fun block => ?_, fun block => ?_⟩
    · rw [ring agree.bound, ring agree.boundB, map_lastN, map_lastN, List.map_append,
        List.map_append, agree.rings block]
      exact lastN_append_congr (edits.order.rings block) _
    · rw [ring agree.bound, length_lastN]
      omega
  · obtain ⟨eA, eB, op, nowA, nowB, esA, esB, vetoA, vetoB, clocks⟩ := veto
    rw [esA, esB, exec_cons, exec_cons, exec_nil, exec_nil, step_veto vetoA, step_veto vetoB]
    split_ifs
    · refine agree.veto_round fun v last hv hlast => clocks (v.columns L).2 last.ts ?_ ?_
      · rw [hA.docLoadMeta, hv, Option.map_some]
      · simp [Version.columns, hlast]
    · exact agree

/-- Two devices that start with nothing of a document agree on it after every run of rounds
in which they process the same operations, if in each round the newest edit is the same and
received by both, the newest edits of others come in the same order for each block, and no
veto is honoured other than on both at once. -/
theorem replicas_agree (hL : L.SetUnion) (ids : OpIds Blob Digest) (clock : Bool)
    (meA meB : Bytes32) (key : String) (dA dB : Device Blob Digest)
    (emptyA : Untouched dA.store key) (emptyB : Untouched dB.store key)
    (rounds : List (Round Blob Digest))
    (ok : Along (roundStep L ids meA meB) (RoundOk L ids key clock meA meB) (dA, dB) rounds) :
    let d := exec (roundStep L ids meA meB) (dA, dB) rounds
    docView L clock d.1.store meA key = docView L clock d.2.store meB key := by
  have start : Agreeing L clock key (dA, dB) :=
    ⟨_, _, Represents.untouched emptyA, Represents.untouched emptyB, rfl, fun _ => rfl,
      fun _ => Nat.zero_le _⟩
  have agreeing : Agreeing L clock key (exec (roundStep L ids meA meB) (dA, dB) rounds) :=
    exec_invariant (fun _ _ h ok => h.round hL ok) start ok
  exact agreeing.docView meA meB

end Runs

/-! ## Runs of two devices on registers -/

/-- Edits of other blocks leave a ring as it is. -/
theorem newestPushes_of_not_mem {L : Loro Blob C Digest} {ids : OpIds Blob Digest} {clock : Bool}
    {me : Bytes32} {hs : List (Handled Blob Digest)} {block : BlockId}
    (other : ∀ h ∈ hs, block ∉ h.op.blocks) : newestPushes L ids clock me hs block = [] := by
  have none : (effective L hs).flatMap (·.pushes ids me block) = [] := by
    apply List.flatMap_eq_nil_iff.2
    intro h hh
    have unaffected := other h (List.mem_filter.1 hh).1
    unfold Handled.pushes
    cases hop : h.op with
    | veto op => rfl
    | edit op =>
      rw [hop, DocOp.blocks] at unaffected
      simp [List.count_eq_zero.2 unaffected]
  rw [newestPushes, none]
  rfl

/-- A device that has done nothing yet. -/
def idle : Device (OpLog String) RegisterDigest := ⟨DocStore.empty, []⟩

/-- The edits of the peers `ns`, as a device receives them. -/
def receive (ns : List UInt8) : List (DocEvent (OpLog String) RegisterDigest) :=
  ns.map fun n => .docEdited (editOf n "text" (1000 * n.toNat)) 0

/-- What the device with key `n, n, …` processes of the document `sun.leo`. -/
def opsOn (n : UInt8) (es : List (DocEvent (OpLog String) RegisterDigest)) :
    List (DocOp (OpLog String) RegisterDigest) :=
  (idle.handled registerUnion registerIds (keyOf n) "sun.leo" es).map (·.op)

/-- What it then shows of the document. -/
def shownOn (n : UInt8) (es : List (DocEvent (OpLog String) RegisterDigest)) :
    DocView RegisterDigest :=
  docView registerUnion false
    (exec (Device.step registerUnion registerIds (keyOf n)) idle es).store (keyOf n) "sun.leo"

/-- Two devices that receive two edits, each of another peer, in two orders show different
edits as the newest. -/
theorem orders_disagree :
    (opsOn 1 (receive [2, 3])).Perm (opsOn 9 (receive [3, 2])) ∧
      (shownOn 1 (receive [2, 3])).lastEditOpId ≠ (shownOn 9 (receive [3, 2])).lastEditOpId := by
  decide

/-- The first device edits before it receives the edits of six others. -/
def editsOn1 : List (DocEvent (OpLog String) RegisterDigest) :=
  .publishDocEdit "sun.leo" "text" false (some (headerOf 1 0 1000)) 0 ::
    receive [2, 3, 4, 5, 6, 7]

/-- The second device receives that edit among the others. -/
def editsOn9 : List (DocEvent (OpLog String) RegisterDigest) := receive [2, 1, 3, 4, 5, 6, 7]

/-- Then both receive a veto of the last edit. -/
def twoRounds : List (Round (OpLog String) RegisterDigest) :=
  [(editsOn1, editsOn9),
    ([.docVetoProposed (vetoOf 3 (editOf 7 "text" 7000) 8000) 10],
      [.docVetoProposed (vetoOf 3 (editOf 7 "text" 7000) 8000) 20])]

theorem replicas_agree_twoRounds :
    let d := exec (roundStep registerUnion registerIds (keyOf 1) (keyOf 9)) (idle, idle) twoRounds
    docView registerUnion true d.1.store (keyOf 1) "sun.leo" =
      docView registerUnion true d.2.store (keyOf 9) "sun.leo" := by
  have body1 : (idle.handled registerUnion registerIds (keyOf 1) "sun.leo" editsOn1).map
      (·.op.blocks) = List.replicate 7 [bodyBlockId] := rfl
  have body9 : (idle.handled registerUnion registerIds (keyOf 9) "sun.leo" editsOn9).map
      (·.op.blocks) = List.replicate 7 [bodyBlockId] := rfl
  have alone : ∀ {hs : List (Handled (OpLog String) RegisterDigest)} {block : BlockId},
      hs.map (·.op.blocks) = List.replicate 7 [bodyBlockId] → block ≠ bodyBlockId →
      ∀ h ∈ hs, block ∉ h.op.blocks := by
    intro hs block body other h hh
    have blocks : h.op.blocks ∈ List.replicate 7 [bodyBlockId] := body ▸ List.mem_map_of_mem hh
    rw [List.eq_of_mem_replicate blocks, List.mem_singleton]
    exact other
  refine replicas_agree registerUnion_setUnion registerIds true (keyOf 1) (keyOf 9) "sun.leo" idle
    idle ⟨rfl, fun _ => rfl⟩ ⟨rfl, fun _ => rfl⟩ twoRounds ⟨⟨by decide, .inl ?_⟩,
      ⟨by decide, .inr ?_⟩, trivial⟩
  · refine ⟨?_, ?_, ⟨by decide, by decide, by decide, fun block => ?_⟩⟩
    · exact ⟨fun _ => ⟨_, rfl, rfl⟩, trivial, trivial, trivial, trivial, trivial, trivial, trivial⟩
    · exact ⟨trivial, trivial, trivial, trivial, trivial, trivial, trivial, trivial⟩
    · by_cases other : block = bodyBlockId
      · subst other
        decide
      · rw [newestPushes_of_not_mem (alone body1 other),
          newestPushes_of_not_mem (alone body9 other)]
  · refine ⟨_, _, _, 10, 20, rfl, rfl, rfl, rfl, fun info ts _ _ => ?_⟩
    simp only [vetoWindowDays]
    omega

end Zodia.App
