import Zodia.App.DocRuns
import Zodia.App.RegisterDocs

/-!
# Edits that arrive again

An operation that was pruned is handed out once more by the next peer that still has it. A
second import changes no text, but the handler does not know that it has seen the edit: the
current snapshot becomes the one before the newest edit, the edit becomes the newest one, and
its author is pushed onto the rings once more.

## Main definitions

* `SameDocs` — what the store holds of the documents is the same.
* `Settled` — the state in which an edit can arrive again unnoticed.

## Main results

* `redelivery_idempotent_iff` — an edit that is applied again leaves the documents as they
  were exactly when they are settled on it.
* `redelivery_changes` — an edit that another one followed is not.
-/

namespace Zodia.App

open Lib Doc Store

variable {Blob C Digest : Type}

/-- The rows of the documents and the rings of their blocks are the same. -/
def SameDocs (st st' : DocStore Blob Digest) : Prop :=
  ∀ key, (st'.docs.find? key).map DocRow.columns = (st.docs.find? key).map DocRow.columns ∧
    ∀ block, st'.blockRingGet key block = st.blockRingGet key block

/-- The edit is the newest one, what it brought was there before it, and the rings of its
blocks are full of it, unless it is this device's own. -/
structure Settled [DecidableEq C] (L : Loro Blob C Digest) (ids : OpIds Blob Digest) (me : Bytes32)
    (st : DocStore Blob Digest) (op : DocEdited Blob) (now : ℕ) : Prop where
  known : ∀ u, L.decode op.crdtUpdate = some u → u ⊆ (openLocal L st me op.interpKey).inner
  newest : st.docLoadMeta op.interpKey = some ⟨st.docLoad op.interpKey,
    some (ids.header op.header), some op.header.timestamp, some op.header.verifyingKey,
    some (encodeBlocks op.affectedBlocks)⟩
  full : op.header.verifyingKey ≠ me → ∀ block ∈ op.affectedBlocks,
    st.blockRingGet op.interpKey block = List.replicate ringSize
      ⟨op.header.verifyingKey, ids.header op.header, now, op.aiGenerated⟩

/-! ## Stored versions -/

theorem encodeBlocks_injective : Function.Injective encodeBlocks :=
  Function.LeftInverse.injective decodeBlocks_encodeBlocks

section Columns

variable [DecidableEq C] {L : Loro Blob C Digest}

theorem exportSnapshot_injective (hL : L.SetUnion) : Function.Injective L.exportSnapshot := by
  intro d d' same
  have restored := hL.restores.restore d trivial
  rw [same, hL.restores.restore d' trivial] at restored
  exact (Option.some.inj restored).symm

theorem lastEdit_eq_iff {l l' : Option (LastEdit Digest)} :
    l = l' ↔ l.map (·.opId) = l'.map (·.opId) ∧ l.map (·.ts) = l'.map (·.ts) ∧
      l.map (·.author) = l'.map (·.author) ∧
      l.map (fun e => encodeBlocks e.blocks) = l'.map fun e => encodeBlocks e.blocks := by
  cases l with
  | none => cases l' <;> simp
  | some e =>
    cases l' with
    | none => simp
    | some e' =>
      obtain ⟨opId, ts, author, blocks⟩ := e
      obtain ⟨opId', ts', author', blocks'⟩ := e'
      simp [encodeBlocks_injective.eq_iff]

/-- The columns of a row determine the version they hold. -/
theorem columns_injective (hL : L.SetUnion) :
    Function.Injective (Version.columns L : Version C Digest → _) := by
  rintro ⟨current, prior, last⟩ ⟨current', prior', last'⟩ same
  simp only [Version.columns, Prod.mk.injEq, DocMeta.mk.injEq] at same
  obtain ⟨hcurrent, hprior, opId, ts, author, blocks⟩ := same
  obtain rfl := exportSnapshot_injective hL hcurrent
  obtain rfl := Option.map_injective (exportSnapshot_injective hL) hprior
  obtain rfl := lastEdit_eq_iff.2 ⟨opId, ts, author, blocks⟩
  rfl

/-- Two stores hold the same of a document exactly when its state is the same. -/
theorem Represents.same_iff (hL : L.SetUnion) {P : OpLog C → Prop} {st st' : DocStore Blob Digest}
    {key : String} {s s' : DocState C Digest} (h : Represents L P st key s)
    (h' : Represents L P st' key s') :
    ((st'.docs.find? key).map DocRow.columns = (st.docs.find? key).map DocRow.columns ∧
      ∀ block, st'.blockRingGet key block = st.blockRingGet key block) ↔ s' = s := by
  rw [h.row, h'.row, (Option.map_injective (columns_injective hL)).eq_iff]
  simp only [h.rings, h'.rings]
  obtain ⟨version, rings⟩ := s
  obtain ⟨version', rings'⟩ := s'
  simp [funext_iff]

end Columns

/-! ## Applying an edit again -/

/-- The edit is the newest one of the state. -/
structure DocState.Settled (s : DocState C Digest) (me : Bytes32) (u : OpLog C)
    (edit : LastEdit Digest) (aiGenerated : Bool) (now : ℕ) : Prop where
  version : ∃ v, s.version = some v ∧ u ⊆ v.current ∧ v.prior = some v.current ∧
    v.last = some edit
  full : edit.author ≠ me → ∀ block ∈ edit.blocks,
    s.rings block = List.replicate ringSize ⟨edit.author, edit.opId, now, aiGenerated⟩

/-- The pushes of an edit change no ring exactly when each is full of the entry. -/
theorem Rings.foldl_push_eq_self_iff {rings : Rings Digest} {entry : AuthorEntry Digest}
    {blocks : List BlockId} (bounded : ∀ b, (rings b).length ≤ ringSize) :
    blocks.foldl (·.push entry) rings = rings ↔
      ∀ block ∈ blocks, rings block = List.replicate ringSize entry := by
  rw [funext_iff]
  refine forall_congr' fun block => ?_
  rw [Rings.foldl_push (bounded block)]
  by_cases affected : block ∈ blocks
  · rw [lastN_append_replicate_eq_self (List.count_pos_iff.2 affected)]
    exact ⟨fun full _ => full, fun full => full affected⟩
  · rw [List.count_eq_zero.2 affected]
    simp [affected, lastN_of_length_le (bounded block)]

theorem DocState.applyEdit_eq_self_iff [DecidableEq C] {L : Loro Blob C Digest} (hL : L.SetUnion)
    {s : DocState C Digest} (bounded : s.Bounded) {me : Bytes32} {update : Blob} {u : OpLog C}
    (read : L.decode update = some u) (edit : LastEdit Digest) (aiGenerated : Bool) (now : ℕ) :
    s.applyEdit L me update edit aiGenerated now = s ↔ s.Settled me u edit aiGenerated now := by
  have imported : L.importInto s.opened update = some (s.opened ∪ u) := by
    rw [hL.import_union, read, Option.map_some]
  rw [DocState.applyEdit_of_import imported]
  obtain ⟨version, rings⟩ := s
  have ringsSame : (if edit.author = me then rings
        else edit.blocks.foldl (·.push ⟨edit.author, edit.opId, now, aiGenerated⟩) rings) = rings ↔
      (edit.author ≠ me → ∀ block ∈ edit.blocks,
        rings block = List.replicate ringSize ⟨edit.author, edit.opId, now, aiGenerated⟩) := by
    by_cases own : edit.author = me
    · simp [own]
    · rw [if_neg own, Rings.foldl_push_eq_self_iff bounded]
      exact ⟨fun full _ => full, fun full => full own⟩
  rw [DocState.mk.injEq, ringsSame]
  cases version with
  | none => exact ⟨fun same => (nomatch same.1), fun settled => by simpa using settled.version⟩
  | some v =>
    obtain ⟨current, prior, last⟩ := v
    have opened : (⟨some ⟨current, prior, last⟩, rings⟩ : DocState C Digest).opened = current := rfl
    simp only [opened, Option.map_some, Option.some.injEq, Version.mk.injEq,
      Finset.union_eq_left]
    constructor
    · rintro ⟨⟨known, rfl, rfl⟩, full⟩
      exact ⟨⟨_, rfl, known, rfl, rfl⟩, full⟩
    · rintro ⟨⟨v, hv, known, hprior, hlast⟩, full⟩
      obtain rfl := Option.some.inj hv
      exact ⟨⟨known, hprior.symm, hlast.symm⟩, full⟩

variable [DecidableEq C] {L : Loro Blob C Digest} {ids : OpIds Blob Digest} {me : Bytes32}

/-- What the store shows of a settled document. -/
theorem Represents.settled_iff (hL : L.SetUnion) {st : DocStore Blob Digest} {op : DocEdited Blob}
    {s : DocState C Digest} {u : OpLog C} {now : ℕ}
    (h : Represents L (fun _ => True) st op.interpKey s) (read : L.decode op.crdtUpdate = some u) :
    Settled L ids me st op now ↔ s.Settled me u (op.lastEdit ids) op.aiGenerated now := by
  have known : (∀ u, L.decode op.crdtUpdate = some u →
      u ⊆ (App.openLocal L st me op.interpKey).inner) ↔ u ⊆ s.opened := by
    simp [read, h.openLocal hL.restores]
  have newest : st.docLoadMeta op.interpKey = some ⟨st.docLoad op.interpKey,
        some (ids.header op.header), some op.header.timestamp, some op.header.verifyingKey,
        some (encodeBlocks op.affectedBlocks)⟩ ↔
      ∃ v, s.version = some v ∧ v.prior = some v.current ∧ v.last = some (op.lastEdit ids) := by
    rw [h.docLoadMeta, h.docLoad]
    cases s.version with
    | none => simp
    | some v =>
      obtain ⟨current, prior, last⟩ := v
      simp only [Version.columns, Option.map_some, Option.some.injEq, DocMeta.mk.injEq,
        exists_eq_left', lastEdit_eq_iff, DocEdited.lastEdit]
      rw [← Option.map_some (f := L.exportSnapshot) (a := current),
        (Option.map_injective (exportSnapshot_injective hL)).eq_iff]
  constructor
  · rintro ⟨k, n, full⟩
    obtain ⟨v, hv, hprior, hlast⟩ := newest.1 n
    have opened : s.opened = v.current := by simp [DocState.opened, hv]
    exact ⟨⟨v, hv, opened ▸ known.1 k, hprior, hlast⟩,
      fun other block hblock => by rw [← h.rings block]; exact full other block hblock⟩
  · rintro ⟨⟨v, hv, sub, hprior, hlast⟩, full⟩
    have opened : s.opened = v.current := by simp [DocState.opened, hv]
    exact ⟨known.2 (opened ▸ sub), newest.2 ⟨v, hv, hprior, hlast⟩,
      fun other block hblock => by rw [h.rings block]; exact full other block hblock⟩

variable [DecidableEq Digest]

/-- In every run, an edit that can be read leaves every document and every ring as they are
when it arrives exactly if the documents are settled on it. -/
theorem redelivery_idempotent_iff (hL : L.SetUnion) (ids : OpIds Blob Digest) (me : Bytes32)
    (start : ℕ) (keys : List LegacyKey) (es : List (DocEvent Blob Digest)) (op : DocEdited Blob)
    (read : (L.decode op.crdtUpdate).isSome) (now : ℕ) :
    let d := exec (Device.step L ids me) (Device.firstStart L ids me start keys) es
    SameDocs d.store (d.step L ids me (.docEdited op now)).store ↔
      Settled L ids me d.store op now := by
  intro d
  obtain ⟨u, read⟩ := Option.isSome_iff_exists.1 read
  obtain ⟨s, bounded, represents⟩ :=
    Represents.reachable hL.restores ids me start keys es op.interpKey
  have after := represents.step hL.restores ids me (.docEdited op now)
  have applied : s.step L ids me op.interpKey (.docEdited op now) =
      s.applyEdit L me op.crdtUpdate (op.lastEdit ids) op.aiGenerated now := if_pos rfl
  rw [applied] at after
  rw [represents.settled_iff hL read, ← DocState.applyEdit_eq_self_iff hL bounded read,
    ← represents.same_iff hL after]
  refine ⟨fun same => same op.interpKey, fun same key => ?_⟩
  by_cases this : op.interpKey = key
  · exact this ▸ same
  · obtain ⟨t, -, other⟩ := Represents.reachable hL.restores ids me start keys es key
    exact (other.same_iff hL (other.applyDocEdit_other this me op.crdtUpdate (op.lastEdit ids)
      op.aiGenerated now)).2 rfl

/-! ## An edit that another one followed -/

/-- Two edits arrive, the first of them once more. -/
def warmThenCold : Device (OpLog String) RegisterDigest :=
  exec (Device.step registerUnion registerIds (keyOf 1))
    (Device.firstStart registerUnion registerIds (keyOf 1) 0 [])
    [.docEdited (editOf 2 "warm" 100) 1, .docEdited (editOf 3 "cold" 200) 2]

theorem redelivery_idempotent_iff_warmThenCold :
    SameDocs warmThenCold.store
        (warmThenCold.step registerUnion registerIds (keyOf 1)
          (.docEdited (editOf 2 "warm" 100) 3)).store ↔
      Settled registerUnion registerIds (keyOf 1) warmThenCold.store (editOf 2 "warm" 100) 3 :=
  redelivery_idempotent_iff registerUnion_setUnion registerIds (keyOf 1) 0 []
    [.docEdited (editOf 2 "warm" 100) 1, .docEdited (editOf 3 "cold" 200) 2]
    (editOf 2 "warm" 100) rfl 3

/-- The first edit is the newest one when it has arrived again. -/
theorem redelivery_changes :
    ¬ SameDocs warmThenCold.store
      (warmThenCold.step registerUnion registerIds (keyOf 1)
        (.docEdited (editOf 2 "warm" 100) 3)).store := by
  intro same
  have opIds := congrArg (Option.map fun c => c.2.lastEditOpId) (same "sun.leo").1
  exact absurd opIds (by decide)

end Zodia.App
