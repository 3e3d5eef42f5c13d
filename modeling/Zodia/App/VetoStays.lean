import Zodia.App.DocRuns
import Zodia.App.RegisterDocs

/-!
# Whether a veto stays honoured

An honoured veto puts the snapshot from before the edit back. It undoes nothing in the CRDT:
the operations of the edit are not in the document any more, and whoever still has them sends
them along with the next edit, since an update holds all operations of its publisher.

## Main definitions

* `introduced` — the operations an edit adds to the document.
* `Gone` — none of them is in it.
* `Brings` — an event that brings one of them back.

## Main results

* `veto_stays_honoured_iff` — the operations stay out exactly as long as no event brings one.
* `priorWithout_of_once` — the veto takes them out when the edit was applied once.
* `vetoed_text_returns` — the next edit of somebody who has seen the vetoed one.
-/

namespace Zodia.App

open Lib Doc Store

variable {Blob C Digest : Type} [DecidableEq C] [DecidableEq Digest]

/-! ## The operations of an edit -/

section Definitions

variable (L : Loro Blob C Digest) (ids : OpIds Blob Digest) (me : Bytes32) (key : String)

/-- The operations of the document of `key`. -/
def docOps (st : DocStore Blob Digest) : OpLog C := (openLocal L st me key).inner

/-- The operations that the edit adds to the document. -/
def introduced (st : DocStore Blob Digest) (edit : DocEdited Blob) : OpLog C :=
  (L.decode edit.crdtUpdate).getD ∅ \ docOps L me edit.interpKey st

/-- None of the operations is part of the document. -/
def Gone (ops : OpLog C) (d : Device Blob Digest) : Prop := Disjoint ops (docOps L me key d.store)

/-- None of the operations is part of the snapshot from before the newest edit. -/
def PriorWithout (ops : OpLog C) (st : DocStore Blob Digest) : Prop :=
  ∀ info prior doc, st.docLoadMeta key = some info → info.priorSnapshot = some prior →
    InterpDoc.fromSnapshot L me prior = some doc → Disjoint ops doc.inner

/-- The event brings one of the operations: in the update of an edit, or as an operation of
an own edit. -/
def Brings (ops : OpLog C) (d : Device Blob Digest) : DocEvent Blob Digest → Prop
  | .docEdited op _ =>
    op.interpKey = key ∧ ∃ u, L.decode op.crdtUpdate = some u ∧ ¬ Disjoint ops u
  | .publishDocEdit interpKey newBody _ _ _ =>
    interpKey = key ∧ ¬ Disjoint ops (localOps (docOps L me key d.store) (peerIdFrom me)
      (L.replaceBody (docOps L me key d.store) newBody)).toFinset
  | _ => False

/-- An edit by somebody else, an own edit, or a restart. -/
def EditedLater : DocEvent Blob Digest → Prop
  | .docEdited op _ => op.header.verifyingKey ≠ me
  | .publishDocEdit _ _ _ _ _ => True
  | .restart => True
  | _ => False

/-- Who vetoes the edit `target` in an event, and the clock at which it is checked. -/
def DocEvent.vetoOf (target : Digest) : DocEvent Blob Digest → Option (Bytes32 × ℕ)
  | .docVetoProposed op now =>
    if op.interpKey = key ∧ op.targetEditOpId = target then some (op.header.verifyingKey, now)
    else none
  | .proposeDocVeto interpKey target' _ now =>
    if interpKey = key ∧ target' = target then some (me, now) else none
  | _ => none

/-- The event is a veto of the edit that the device honours. -/
def HonouredVeto (d : Device Blob Digest) (edit : DocEdited Blob) (e : DocEvent Blob Digest) :
    Prop :=
  ∃ revoker now, e.vetoOf me edit.interpKey (ids.header edit.header) = some (revoker, now) ∧
    (applyDocVeto L d.store (ids.header edit.header) revoker edit.interpKey now).isSome

end Definitions

/-! ## Later edits -/

variable {L : Loro Blob C Digest} {ids : OpIds Blob Digest} {me : Bytes32} {key : String}
  {s : DocState C Digest} {d : Device Blob Digest} {ops : OpLog C}

omit [DecidableEq Digest] in
theorem Represents.docOps {P : OpLog C → Prop} (hL : L.Restores P) {st : DocStore Blob Digest}
    (h : Represents L P st key s) : docOps L me key st = s.opened := by
  rw [App.docOps, h.openLocal hL]

/-- After an edit the operations are out exactly if it brought none of them. -/
theorem gone_step_iff (hL : L.SetUnion) (h : Represents L (fun _ => True) d.store key s)
    (gone : Gone L me key ops d) {e : DocEvent Blob Digest} (later : EditedLater me e) :
    Gone L me key ops (d.step L ids me e) ↔ ¬ Brings L me key ops d e := by
  have after := h.step hL.restores ids me e
  rw [Gone, h.docOps hL.restores] at gone
  rw [Gone, after.docOps hL.restores]
  cases e with
  | publishDocEdit interpKey newBody aiGenerated header now =>
    simp only [Brings, h.docOps hL.restores, DocState.step]
    split_ifs with same
    · have opened : (s.applyLocal L ids me newBody now).opened = s.committed L me newBody := rfl
      rw [opened, DocState.committed, commit, Finset.disjoint_union_right]
      simp [same, gone]
    · simp [same, gone]
  | docEdited op now =>
    simp only [Brings, DocState.step]
    split_ifs with same
    · unfold DocState.applyEdit
      rw [hL.import_union]
      cases read : L.decode op.crdtUpdate with
      | none => simp [gone]
      | some u =>
        have opened : ∀ rings last, (⟨some ⟨s.opened ∪ u, s.version.map Version.current, last⟩,
          rings⟩ : DocState C Digest).opened = s.opened ∪ u := fun _ _ => rfl
        simp [opened, Finset.disjoint_union_right, gone, same]
    · simp [same, gone]
  | docVetoProposed op now => cases later
  | proposeDocVeto interpKey target header now => cases later
  | restart => simpa [Brings, DocState.step] using gone

/-! ## The veto -/

omit [DecidableEq Digest] in
theorem Represents.priorWithout_iff (hL : L.SetUnion) {st : DocStore Blob Digest}
    (h : Represents L (fun _ => True) st key s) {v : Version C Digest} (hv : s.version = some v)
    {prior : OpLog C} (hprior : v.prior = some prior) :
    PriorWithout L me key ops st ↔ Disjoint ops prior := by
  have stored : st.docLoadMeta key = some (v.columns L).2 := by
    rw [h.docLoadMeta, hv, Option.map_some]
  have snapshot : (v.columns L).2.priorSnapshot = some (L.exportSnapshot prior) := by
    simp [Version.columns, hprior]
  have read : InterpDoc.fromSnapshot L me (L.exportSnapshot prior) =
      some ⟨prior, peerIdFrom me⟩ := by
    rw [InterpDoc.fromSnapshot, hL.restores.restore prior trivial, Option.map_some]
  constructor
  · exact fun without => without _ _ _ stored snapshot read
  · intro disjoint info prior' doc hinfo hprior' hdoc
    obtain rfl := Option.some.inj (stored.symm.trans hinfo)
    obtain rfl := Option.some.inj (snapshot.symm.trans hprior')
    obtain rfl := Option.some.inj (read.symm.trans hdoc)
    exact disjoint

/-- An honoured veto restores the snapshot from before the edit. -/
theorem gone_veto_iff (hL : L.SetUnion) {edit : DocEdited Blob}
    (h : Represents L (fun _ => True) d.store edit.interpKey s) {e : DocEvent Blob Digest}
    (honoured : HonouredVeto L ids me d edit e) :
    Gone L me edit.interpKey ops (d.step L ids me e) ↔
      PriorWithout L me edit.interpKey ops d.store := by
  obtain ⟨revoker, now, vetoed, rolls⟩ := honoured
  obtain ⟨s', rolled⟩ := Option.isSome_iff_exists.1 ((h.applyDocVeto hL.restores _ _ _).1.1 rolls)
  have after := h.step hL.restores ids me e
  have stepped : s.step L ids me edit.interpKey e = s' := by
    cases e with
    | docVetoProposed op clock =>
      simp only [DocEvent.vetoOf] at vetoed
      split_ifs at vetoed with named
      obtain ⟨rfl, rfl⟩ := Prod.mk.inj (Option.some.inj vetoed)
      simp [DocState.step, named, rolled]
    | proposeDocVeto interpKey target header clock =>
      simp only [DocEvent.vetoOf] at vetoed
      split_ifs at vetoed with named
      obtain ⟨rfl, rfl⟩ := Prod.mk.inj (Option.some.inj vetoed)
      simp [DocState.step, named, rolled]
    | publishDocEdit => cases vetoed
    | docEdited => cases vetoed
    | restart => cases vetoed
  obtain ⟨v, last, prior, hv, -, hprior, -, -, rfl⟩ := DocState.applyVeto_eq_some.1 rolled
  rw [Gone, after.docOps hL.restores, stepped]
  have restored : (s.rolledBack prior last.blocks).opened = prior := rfl
  rw [restored, h.priorWithout_iff hL hv hprior]

/-- Once a veto of an edit is honoured, the operations the edit introduced are part of the
document in no later state, exactly if the restored snapshot holds none of them and no later
event brings one. -/
theorem veto_stays_honoured_iff (hL : L.SetUnion) (ids : OpIds Blob Digest) (me : Bytes32)
    (start : ℕ) (keys : List LegacyKey) (before between later : List (DocEvent Blob Digest))
    (edit : DocEdited Blob) (editNow : ℕ) (veto : DocEvent Blob Digest) :
    let d₀ := exec (Device.step L ids me) (Device.firstStart L ids me start keys) before
    let d₁ := exec (Device.step L ids me) (d₀.step L ids me (.docEdited edit editNow)) between
    let ops := introduced L me d₀.store edit
    HonouredVeto L ids me d₁ edit veto → (∀ e ∈ later, EditedLater me e) →
      (Always (Device.step L ids me) (Gone L me edit.interpKey ops) (d₁.step L ids me veto) later ↔
        PriorWithout L me edit.interpKey ops d₁.store ∧
          Along (Device.step L ids me) (fun d e => ¬ Brings L me edit.interpKey ops d e)
            (d₁.step L ids me veto) later) := by
  intro d₀ d₁ ops honoured edits
  obtain ⟨s₀, -, start⟩ := Represents.reachable hL.restores ids me start keys before edit.interpKey
  have applied := (start.step hL.restores ids me (.docEdited edit editNow)).exec hL.restores ids me
    between
  have keep : ∀ (d : Device Blob Digest), ∀ e ∈ later,
      (∃ s, Represents L (fun _ => True) d.store edit.interpKey s) →
      ∃ s, Represents L (fun _ => True) (d.step L ids me e).store edit.interpKey s := by
    rintro d e - ⟨s, h⟩
    exact ⟨_, h.step hL.restores ids me e⟩
  have exactly : ∀ (d : Device Blob Digest), ∀ e ∈ later,
      (∃ s, Represents L (fun _ => True) d.store edit.interpKey s) →
      Gone L me edit.interpKey ops d →
      (Gone L me edit.interpKey ops (d.step L ids me e) ↔
        ¬ Brings L me edit.interpKey ops d e) := by
    rintro d e he ⟨s, h⟩ gone
    exact gone_step_iff hL h gone (edits e he)
  rw [always_iff_along keep exactly ⟨_, applied.step hL.restores ids me veto⟩,
    gone_veto_iff hL applied honoured]

/-! ## An edit that was applied once -/

/-- While the edit is the newest one, the snapshot before it holds none of the operations. -/
def DocState.PriorClear (id : Digest) (ops : OpLog C) (s : DocState C Digest) : Prop :=
  ∀ v last prior, s.version = some v → v.last = some last → last.opId = id →
    v.prior = some prior → Disjoint ops prior

/-- Events other than the edit itself do not make it the newest one. -/
theorem DocState.PriorClear.step (hids : ids.Ideal) {header : OpHeader}
    (clear : s.PriorClear (ids.header header) ops) {e : DocEvent Blob Digest}
    (other : ∀ op now, e = .docEdited op now → op.interpKey = key → op.header ≠ header) :
    (s.step L ids me key e).PriorClear (ids.header header) ops := by
  intro v last prior hv hlast named hprior
  have effect := DocState.effect_step L ids me key s e
  generalize s.step L ids me key e = s' at effect hv
  cases effect with
  | nothing => exact clear v last prior hv hlast named hprior
  | published newBody aiGenerated header' now =>
    obtain rfl := Option.some.inj hv
    obtain rfl := Option.some.inj hlast
    exact absurd named.symm (hids.header_ne_local _ _ _ _)
  | edited op now current same imported =>
    rw [DocState.applyEdit_of_import imported] at hv
    obtain rfl := Option.some.inj hv
    obtain rfl := Option.some.inj hlast
    exact absurd (hids.header_inj _ _ named) (other op now rfl same)
  | rolledBack _ target revoker now s' honoured =>
    obtain ⟨w, last', prior', -, -, -, -, -, rfl⟩ := DocState.applyVeto_eq_some.1 honoured
    obtain rfl := Option.some.inj hv
    cases hlast

theorem DocState.PriorClear.exec (hids : ids.Ideal) {header : OpHeader}
    (clear : s.PriorClear (ids.header header) ops) {es : List (DocEvent Blob Digest)}
    (others : ∀ op now, .docEdited op now ∈ es → op.interpKey = key → op.header ≠ header) :
    (exec (DocState.step L ids me key) s es).PriorClear (ids.header header) ops := by
  have keep : ∀ (s : DocState C Digest) (e : DocEvent Blob Digest),
      s.PriorClear (ids.header header) ops →
      (∀ op now, e = .docEdited op now → op.interpKey = key → op.header ≠ header) →
      (s.step L ids me key e).PriorClear (ids.header header) ops :=
    fun _ _ clear other => clear.step hids other
  refine exec_invariant keep clear (Along.of_forall (fun e he op now same => ?_) s)
  exact others op now (same ▸ he)

/-- If the edit was applied once, an honoured veto takes its operations out. -/
theorem priorWithout_of_once (hL : L.SetUnion) (hids : ids.Ideal) (me : Bytes32) (start : ℕ)
    (keys : List LegacyKey) (before between : List (DocEvent Blob Digest)) (edit : DocEdited Blob)
    (editNow : ℕ) (veto : DocEvent Blob Digest) :
    let d₀ := exec (Device.step L ids me) (Device.firstStart L ids me start keys) before
    let d₁ := exec (Device.step L ids me) (d₀.step L ids me (.docEdited edit editNow)) between
    HonouredVeto L ids me d₁ edit veto →
      (∀ op now, .docEdited op now ∈ between → op.interpKey = edit.interpKey →
        op.header ≠ edit.header) →
      PriorWithout L me edit.interpKey (introduced L me d₀.store edit) d₁.store := by
  intro d₀ d₁ honoured once
  obtain ⟨s, -, h⟩ := Represents.reachable hL.restores ids me start keys before edit.interpKey
  have applied := (h.step hL.restores ids me (.docEdited edit editNow)).exec hL.restores ids me
    between
  have clear : (s.step L ids me edit.interpKey (.docEdited edit editNow)).PriorClear
      (ids.header edit.header) (introduced L me d₀.store edit) := by
    intro v last prior hv hlast named hprior
    rw [introduced, h.docOps hL.restores]
    simp only [DocState.step, if_true, DocState.applyEdit, hL.import_union] at hv
    cases read : L.decode edit.crdtUpdate with
    | none => simp
    | some u =>
      simp only [read, Option.map_some] at hv
      obtain rfl := Option.some.inj hv
      obtain ⟨w, hw, rfl⟩ := Option.map_eq_some_iff.1 hprior
      have opened : s.opened = w.current := by simp [DocState.opened, hw]
      exact opened ▸ Finset.sdiff_disjoint
  obtain ⟨revoker, now, -, rolls⟩ := honoured
  obtain ⟨s', rolled⟩ :=
    Option.isSome_iff_exists.1 ((applied.applyDocVeto hL.restores _ _ _).1.1 rolls)
  obtain ⟨v, last, prior, hv, hlast, hprior, named, -, -⟩ := DocState.applyVeto_eq_some.1 rolled
  exact (applied.priorWithout_iff hL hv hprior).2
    (clear.exec hids once v last prior hv hlast named hprior)

/-! ## The next edit of somebody who has seen the vetoed one -/

/-- An edit of peer 4, who has seen the edits of 2 and 3 and knows of no veto. -/
def softEdit : DocEdited (OpLog String) :=
  { editOf 4 "soft" 400 with
    crdtUpdate := (editOf 2 "warm" 200).crdtUpdate ∪ (editOf 3 "cold" 300).crdtUpdate ∪
      (editOf 4 "soft" 400).crdtUpdate }

/-- A device that has received the edit of 2. -/
def receivedWarm : Device (OpLog String) RegisterDigest :=
  exec (Device.step registerUnion registerIds (keyOf 1))
    (Device.firstStart registerUnion registerIds (keyOf 1) 0 [])
    [.docEdited (editOf 2 "warm" 200) 200]

/-- The same device after the edit of 3. -/
def receivedCold : Device (OpLog String) RegisterDigest :=
  exec (Device.step registerUnion registerIds (keyOf 1))
    (receivedWarm.step registerUnion registerIds (keyOf 1)
      (.docEdited (editOf 3 "cold" 300) 300)) []

/-- The author of the first edit vetoes the second. -/
def vetoOfCold : DocEvent (OpLog String) RegisterDigest :=
  .docVetoProposed (vetoOf 2 (editOf 3 "cold" 300) 310) 310

theorem honouredVeto_cold :
    HonouredVeto registerUnion registerIds (keyOf 1) receivedCold (editOf 3 "cold" 300)
      vetoOfCold :=
  ⟨keyOf 2, 310, by decide, by decide⟩

theorem editedLater_soft : ∀ e ∈ [(.docEdited softEdit 410 :
    DocEvent (OpLog String) RegisterDigest)], EditedLater (keyOf 1) e := by
  intro e he
  obtain rfl := List.mem_singleton.1 he
  exact (by decide : (softEdit.header.verifyingKey ≠ keyOf 1))

theorem veto_stays_honoured_iff_soft :
    Always (Device.step registerUnion registerIds (keyOf 1))
        (Gone registerUnion (keyOf 1) "sun.leo"
          (introduced registerUnion (keyOf 1) receivedWarm.store (editOf 3 "cold" 300)))
        (receivedCold.step registerUnion registerIds (keyOf 1) vetoOfCold)
        [.docEdited softEdit 410] ↔
      PriorWithout registerUnion (keyOf 1) "sun.leo"
          (introduced registerUnion (keyOf 1) receivedWarm.store (editOf 3 "cold" 300))
          receivedCold.store ∧
        Along (Device.step registerUnion registerIds (keyOf 1))
          (fun d e => ¬ Brings registerUnion (keyOf 1) "sun.leo"
            (introduced registerUnion (keyOf 1) receivedWarm.store (editOf 3 "cold" 300)) d e)
          (receivedCold.step registerUnion registerIds (keyOf 1) vetoOfCold)
          [.docEdited softEdit 410] :=
  veto_stays_honoured_iff registerUnion_setUnion registerIds (keyOf 1) 0 []
    [.docEdited (editOf 2 "warm" 200) 200] [] [.docEdited softEdit 410] (editOf 3 "cold" 300) 300
    vetoOfCold honouredVeto_cold editedLater_soft

/-- The vetoed text is part of the document again after the edit of 4. -/
theorem vetoed_text_returns :
    HonouredVeto registerUnion registerIds (keyOf 1) receivedCold (editOf 3 "cold" 300)
        vetoOfCold ∧
      EditedLater (keyOf 1) (.docEdited softEdit 410 : DocEvent (OpLog String) RegisterDigest) ∧
      ¬ Always (Device.step registerUnion registerIds (keyOf 1))
        (Gone registerUnion (keyOf 1) "sun.leo"
          (introduced registerUnion (keyOf 1) receivedWarm.store (editOf 3 "cold" 300)))
        (receivedCold.step registerUnion registerIds (keyOf 1) vetoOfCold)
        [.docEdited softEdit 410] := by
  refine ⟨honouredVeto_cold, editedLater_soft _ List.mem_cons_self, ?_⟩
  rintro ⟨-, out⟩
  have returned : ¬ Disjoint
      (introduced registerUnion (keyOf 1) receivedWarm.store (editOf 3 "cold" 300))
      (docOps registerUnion (keyOf 1) "sun.leo"
        ((receivedCold.step registerUnion registerIds (keyOf 1) vetoOfCold).step registerUnion
          registerIds (keyOf 1) (.docEdited softEdit 410)).store) := by decide
  exact returned out

end Zodia.App
