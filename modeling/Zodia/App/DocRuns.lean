import Zodia.App.DocState

/-!
# Runs of one document

What an event can do to a document, said once: nothing, an edit of the device's own user, an
edit that arrives, or a rollback. What every one of these keeps is kept by every run.

## Main definitions

* `DocState.Effect` — the ways a document can change.

## Main results

* `DocState.effect_step` — every event has one of these effects.
* `Represents.reachable` — the state of a document on a device, and the bound on its rings.
-/

namespace Zodia.App

open Lib Doc Store

variable {Blob C Digest : Type} [DecidableEq C] [DecidableEq Digest] {L : Loro Blob C Digest}
  {ids : OpIds Blob Digest} {me : Bytes32} {key : String} {s : DocState C Digest}

/-- What an event does to the document of `key`. -/
inductive DocState.Effect (L : Loro Blob C Digest) (ids : OpIds Blob Digest) (me : Bytes32)
    (key : String) (s : DocState C Digest) : DocEvent Blob Digest → DocState C Digest → Prop
  | nothing (e : DocEvent Blob Digest) : Effect L ids me key s e s
  | published (newBody : String) (aiGenerated : Bool) (header : Option OpHeader) (now : ℕ) :
    Effect L ids me key s (.publishDocEdit key newBody aiGenerated header now)
      (s.applyLocal L ids me newBody now)
  | edited (op : DocEdited Blob) (now : ℕ) (current : OpLog C) (same : op.interpKey = key)
    (imported : L.importInto s.opened op.crdtUpdate = some current) :
    Effect L ids me key s (.docEdited op now)
      (s.applyEdit L me op.crdtUpdate (op.lastEdit ids) op.aiGenerated now)
  | rolledBack (e : DocEvent Blob Digest) (target : Digest) (revoker : Bytes32) (now : ℕ)
    (s' : DocState C Digest) (honoured : s.applyVeto target revoker now = some s') :
    Effect L ids me key s e s'

namespace DocState

/-- A veto rolls back or does nothing. -/
theorem effect_veto (e : DocEvent Blob Digest) (target : Digest) (revoker : Bytes32) (now : ℕ) :
    Effect L ids me key s e ((s.applyVeto target revoker now).getD s) := by
  cases honoured : s.applyVeto target revoker now with
  | none => exact .nothing e
  | some s' => exact .rolledBack e target revoker now s' honoured

theorem effect_step (L : Loro Blob C Digest) (ids : OpIds Blob Digest) (me : Bytes32)
    (key : String) (s : DocState C Digest) (e : DocEvent Blob Digest) :
    Effect L ids me key s e (s.step L ids me key e) := by
  cases e with
  | publishDocEdit interpKey newBody aiGenerated header now =>
    dsimp only [DocState.step]
    split_ifs with same
    · exact same ▸ .published newBody aiGenerated header now
    · exact .nothing _
  | docEdited op now =>
    dsimp only [DocState.step]
    split_ifs with same
    · cases imported : L.importInto s.opened op.crdtUpdate with
      | none =>
        rw [applyEdit_of_refused imported]
        exact .nothing _
      | some current => exact .edited op now current same imported
    · exact .nothing _
  | docVetoProposed op now =>
    dsimp only [DocState.step]
    split_ifs
    · exact effect_veto _ _ _ _
    · exact .nothing _
  | proposeDocVeto interpKey target header now =>
    dsimp only [DocState.step]
    split_ifs
    · exact effect_veto _ _ _ _
    · exact .nothing _
  | restart => exact .nothing _

/-- No ring is overfull. -/
def Bounded (s : DocState C Digest) : Prop := ∀ block, (s.rings block).length ≤ ringSize

omit [DecidableEq C] [DecidableEq Digest] in
theorem Bounded.edited (bounded : s.Bounded) (L : Loro Blob C Digest) (me : Bytes32)
    (update : Blob) (edit : LastEdit Digest) (aiGenerated : Bool) (now : ℕ) :
    (s.applyEdit L me update edit aiGenerated now).Bounded := by
  unfold applyEdit
  split
  · exact bounded
  · intro block
    dsimp only
    split_ifs
    · exact bounded block
    · exact Rings.length_foldl_push bounded

theorem Bounded.effect {e : DocEvent Blob Digest} {s' : DocState C Digest} (bounded : s.Bounded)
    (effect : Effect L ids me key s e s') : s'.Bounded := by
  cases effect with
  | nothing => exact bounded
  | published => exact bounded
  | edited op now => exact bounded.edited L me _ _ _ _
  | rolledBack _ target revoker now s' honoured =>
    obtain ⟨v, last, prior, -, -, -, -, -, rfl⟩ := applyVeto_eq_some.1 honoured
    exact fun block => Rings.length_foldl_pop bounded

theorem Bounded.exec (bounded : s.Bounded) (es : List (DocEvent Blob Digest)) :
    (exec (DocState.step L ids me key) s es).Bounded :=
  exec_keeps Bounded (fun s e h => h.effect (effect_step L ids me key s e)) bounded es

end DocState

/-- On a device every document has a state, and its rings are not overfull. -/
theorem Represents.reachable {P : OpLog C → Prop} (hL : L.Restores P) (ids : OpIds Blob Digest)
    (me : Bytes32) (start : ℕ) (keys : List LegacyKey) (es : List (DocEvent Blob Digest))
    (key : String) :
    ∃ s : DocState C Digest, s.Bounded ∧
      Represents L P (Lib.exec (Device.step L ids me) (Device.firstStart L ids me start keys)
        es).store key s := by
  obtain ⟨s, represents, seeded⟩ := Represents.firstStart hL ids me start keys key
  have bounded : s.Bounded := seeded.length
  exact ⟨_, bounded.exec es, represents.exec hL ids me es⟩

end Zodia.App
