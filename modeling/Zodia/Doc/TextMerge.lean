import Mathlib.Data.Finset.Sort
import Mathlib.Data.Prod.Lex
import Zodia.Doc.InterpDoc

/-!
# Merging two texts

The text of a document as a list CRDT: an operation inserts one character or deletes the one
that another operation inserted, and a merge is a union. A new body deletes every character
there is and inserts every character anew, so what two writers both left in place is deleted
once and inserted twice.

## Main definitions

* `TextOp`, `visible` — operations on a text, and the characters that are left of them.
* `Loro.ListCrdt` — the laws of a library whose texts are list CRDTs.
* `KeepsCommon` — a merge in which unchanged text appears once.

## Main results

* `length_concurrent` — the merge of two bodies is as long as the two together.
* `concurrent_edits_merge_iff` — so unchanged text appears once only if there is none.
* `sun_doubled` — a reading that is doubled.
-/

namespace Zodia.Doc

open Lib

/-! ## Operations on a text -/

/-- An operation inserts a character or deletes the one of another operation. -/
inductive TextOp where
  | insert (pos : ℕ) (value : Char)
  | delete (target : OpId)
  deriving DecidableEq

def TextOp.value : TextOp → Option Char
  | .insert _ value => some value
  | .delete _ => none

variable {Blob Digest : Type}

/-- The operations whose characters are inserted and not deleted. -/
def visible (d : OpLog TextOp) : Finset (CrdtOp TextOp) :=
  d.filter fun op => op.content.value.isSome = true ∧ ∀ del ∈ d, del.content ≠ .delete op.id

/-- The characters of operations, in their order. -/
def textOf (els : List (CrdtOp TextOp)) : String :=
  String.ofList (els.filterMap fun op => op.content.value)

/-- What it takes to replace the elements of a text by a new text. -/
def replaceOps (els : List (CrdtOp TextOp)) (new : String) : List TextOp :=
  els.map (fun op => .delete op.id) ++ new.toList.zipIdx.map fun c => .insert c.2 c.1

/-- A delete names an operation that is there. -/
def DeletesKnown (d : OpLog TextOp) : Prop :=
  ∀ del ∈ d, ∀ target, del.content = .delete target → ∃ op ∈ d, op.id = target

/-- The texts of the library are list CRDTs: `arrange` puts the visible elements of a document
in order, a deletion names elements and an insertion inserts characters, and a new body is then
the text. -/
structure Loro.ListCrdt (L : Loro Blob TextOp Digest)
    (arrange : OpLog TextOp → List (CrdtOp TextOp)) : Prop extends L.SetUnion where
  nodup_arrange : ∀ d, (arrange d).Nodup
  mem_arrange : ∀ d op, op ∈ arrange d ↔ op ∈ visible d
  bodyText_eq : ∀ d, L.bodyText d = textOf (arrange d)
  deleteText_eq : ∀ d pos len, L.deleteText d pos len =
    (((arrange d).drop pos).take len).map fun op => .delete op.id
  insertText_eq : ∀ d pos new, L.insertText d pos new =
    new.toList.zipIdx.map fun c => .insert (pos + c.2) c.1
  text_replaced : ∀ d peer new, DeletesKnown d →
    L.bodyText (commit d peer (replaceOps (arrange d) new)) = new

/-! ## Replacing operations -/

/-- The operations delete every visible element of the document, and nothing else of it. -/
structure Replaces (d : OpLog TextOp) (ops : List (CrdtOp TextOp)) : Prop where
  fresh : ∀ op ∈ ops, ∀ old ∈ d, old.id ≠ op.id
  deletes : ∀ op ∈ ops, ∀ target, op.content = .delete target → ∃ old ∈ d, old.id = target
  covers : ∀ old ∈ visible d, ∃ op ∈ ops, op.content = .delete old.id

/-- What is left are the inserts of the replacing operations. -/
theorem Replaces.visible {d : OpLog TextOp} {ops : List (CrdtOp TextOp)} (h : Replaces d ops)
    (known : DeletesKnown d) :
    visible (d ∪ ops.toFinset) = (ops.filter fun op => op.content.value.isSome).toFinset := by
  ext op
  simp only [Doc.visible, Finset.mem_filter, Finset.mem_union, List.mem_toFinset, List.mem_filter]
  constructor
  · rintro ⟨old | new, inserts, kept⟩
    · -- an old element: deleted before, or deleted now
      exfalso
      by_cases shown : ∀ del ∈ d, del.content ≠ .delete op.id
      · obtain ⟨del, hdel, names⟩ := h.covers op (Finset.mem_filter.2 ⟨old, inserts, shown⟩)
        exact kept del (.inr hdel) names
      · push Not at shown
        obtain ⟨del, hdel, names⟩ := shown
        exact kept del (.inl hdel) names
    · exact ⟨new, inserts⟩
  · rintro ⟨new, inserts⟩
    refine ⟨.inr new, inserts, fun del hdel names => ?_⟩
    rcases hdel with hdel | hdel
    · obtain ⟨old, hold, same⟩ := known del hdel op.id names
      exact h.fresh op new old hold same
    · obtain ⟨old, hold, same⟩ := h.deletes del hdel op.id names
      exact h.fresh op new old hold same

theorem Replaces.append {d : OpLog TextOp} {ops ops' : List (CrdtOp TextOp)} (h : Replaces d ops)
    (h' : Replaces d ops') : Replaces d (ops ++ ops') where
  fresh op hop := (List.mem_append.1 hop).elim (h.fresh op) (h'.fresh op)
  deletes op hop := (List.mem_append.1 hop).elim (h.deletes op) (h'.deletes op)
  covers old hold := by
    obtain ⟨op, hop, names⟩ := h.covers old hold
    exact ⟨op, List.mem_append_left _ hop, names⟩

theorem content_localOps (d : OpLog TextOp) (peer : UInt64) (contents : List TextOp) :
    (localOps d peer contents).map CrdtOp.content = contents := by
  simp [localOps, List.map_map, Function.comp_def]

theorem replaces_localOps {d : OpLog TextOp} {els : List (CrdtOp TextOp)}
    (covers : ∀ op, op ∈ els ↔ op ∈ visible d) (peer : UInt64) (new : String) :
    Replaces d (localOps d peer (replaceOps els new)) where
  fresh op hop old hold := id_ne_of_localOps hold hop
  deletes op hop target names := by
    have content : op.content ∈ replaceOps els new :=
      content_localOps d peer (replaceOps els new) ▸ List.mem_map_of_mem hop
    rw [names] at content
    rcases List.mem_append.1 content with del | ins
    · obtain ⟨old, hold, same⟩ := List.mem_map.1 del
      exact ⟨old, (Finset.mem_filter.1 ((covers old).1 hold)).1, TextOp.delete.inj same⟩
    · obtain ⟨c, -, other⟩ := List.mem_map.1 ins
      cases other
  covers old hold := by
    have content : TextOp.delete old.id ∈ replaceOps els new :=
      List.mem_append_left _ (List.mem_map_of_mem ((covers old).2 hold))
    rw [← content_localOps d peer (replaceOps els new)] at content
    exact List.mem_map.1 content

/-- The characters that the operations insert are those of the new text. -/
theorem textOf_localOps (d : OpLog TextOp) (peer : UInt64) (els : List (CrdtOp TextOp))
    (new : String) : textOf (localOps d peer (replaceOps els new)) = new := by
  have values : (localOps d peer (replaceOps els new)).filterMap (fun op => op.content.value) =
      (replaceOps els new).filterMap TextOp.value := by
    conv_rhs => rw [← content_localOps d peer (replaceOps els new), List.filterMap_map]
    rfl
  have deletes : (els.map fun op => TextOp.delete op.id).filterMap TextOp.value = [] := by
    simp [TextOp.value]
  have inserts : (new.toList.zipIdx.map fun c => TextOp.insert c.2 c.1).filterMap TextOp.value =
      new.toList := by
    rw [List.filterMap_map]
    exact (List.filterMap_eq_map (f := Prod.fst)) ▸ List.zipIdx_map_fst 0 new.toList
  rw [textOf, values, replaceOps, List.filterMap_append, deletes, inserts, List.nil_append,
    String.ofList_toList]

theorem nodup_localOps (d : OpLog TextOp) (peer : UInt64) (contents : List TextOp) :
    ((localOps d peer contents).map CrdtOp.id).Nodup := by
  have ids : (localOps d peer contents).map CrdtOp.id =
      (contents.zipIdx.map Prod.snd).map fun i => (⟨peer, nextCounter d peer + i⟩ : OpId) := by
    rw [localOps, List.map_map, List.map_map]
    rfl
  rw [ids, List.zipIdx_map_snd]
  refine List.Nodup.map (fun i j same => ?_) List.nodup_range'
  have counters := congrArg OpId.counter same
  dsimp only at counters
  omega

/-! ## Two concurrent bodies -/

theorem length_textOf (els : List (CrdtOp TextOp)) :
    (textOf els).length = (els.filter fun op => op.content.value.isSome).length := by
  rw [textOf, String.length_ofList, List.length_filterMap_eq_countP, List.countP_eq_length_filter]

section Merge

variable {L : Loro Blob TextOp Digest} {arrange : OpLog TextOp → List (CrdtOp TextOp)}
  {d : OpLog TextOp}

/-- Every element of a text is a character of it. -/
theorem Loro.ListCrdt.length_arrange (hL : L.ListCrdt arrange) (d : OpLog TextOp) :
    (arrange d).length = (L.bodyText d).length := by
  have inserts : (arrange d).filter (fun op => op.content.value.isSome) = arrange d :=
    List.filter_eq_self.2 fun op hop =>
      (Finset.mem_filter.1 ((hL.mem_arrange d op).1 hop)).2.1
  rw [hL.bodyText_eq, length_textOf, inserts]

/-- A document without text has no element to delete. -/
theorem Loro.ListCrdt.arrange_eq_nil (hL : L.ListCrdt arrange) (empty : L.bodyText d = "") :
    arrange d = [] := by
  refine List.length_eq_zero_iff.1 ?_
  rw [hL.length_arrange, empty]
  rfl

/-- A new body deletes every element and inserts its characters. -/
theorem Loro.ListCrdt.replaceBody_eq (hL : L.ListCrdt arrange) (d : OpLog TextOp) (new : String) :
    L.replaceBody d new = replaceOps (arrange d) new := by
  have deleted : (if 0 < (L.bodyText d).length then L.deleteText d 0 (L.bodyText d).length
      else []) = (arrange d).map fun op => TextOp.delete op.id := by
    rw [hL.deleteText_eq, ← hL.length_arrange, List.drop_zero, List.take_length]
    split_ifs with some_text
    · rfl
    · have none : arrange d = [] := List.length_eq_zero_iff.1 (by omega)
      rw [none, List.map_nil]
  have inserted : (if new.isEmpty then [] else L.insertText d 0 new) =
      new.toList.zipIdx.map fun c => TextOp.insert c.2 c.1 := by
    rw [hL.insertText_eq]
    split_ifs with blank
    · rw [String.isEmpty_iff.1 blank]
      rfl
    · simp only [Nat.zero_add]
  rw [Loro.replaceBody, deleted, inserted, replaceOps]

/-- A text of which nothing is left but the inserts of `ops` is as long as these are. -/
theorem Loro.ListCrdt.length_bodyText (hL : L.ListCrdt arrange) {ops : List (CrdtOp TextOp)}
    (nodup : ops.Nodup)
    (shown : visible d = (ops.filter fun op => op.content.value.isSome).toFinset) :
    (L.bodyText d).length = (textOf ops).length := by
  have perm : (arrange d).Perm (ops.filter fun op => op.content.value.isSome) := by
    refine (List.perm_ext_iff_of_nodup (hL.nodup_arrange d) (nodup.filter _)).2 fun op => ?_
    rw [hL.mem_arrange, shown, List.mem_toFinset]
  rw [hL.bodyText_eq, length_textOf, length_textOf, (perm.filter _).length_eq, List.filter_filter]
  simp

/-- The merge of two bodies that were written concurrently is as long as both together. -/
theorem length_concurrent (hL : L.ListCrdt arrange) (known : DeletesKnown d) {p q : UInt64}
    (differ : p ≠ q) (a b : String) :
    (L.bodyText (commit d p (L.replaceBody d a) ∪ commit d q (L.replaceBody d b))).length =
      a.length + b.length := by
  rw [hL.replaceBody_eq, hL.replaceBody_eq]
  let opsA := localOps d p (replaceOps (arrange d) a)
  let opsB := localOps d q (replaceOps (arrange d) b)
  have merged : commit d p (replaceOps (arrange d) a) ∪ commit d q (replaceOps (arrange d) b) =
      d ∪ (opsA ++ opsB).toFinset := by
    ext op
    simp only [commit, Finset.mem_union, List.mem_toFinset, List.mem_append, opsA, opsB]
    tauto
  have replaces : Replaces d (opsA ++ opsB) :=
    (replaces_localOps (hL.mem_arrange d) p a).append (replaces_localOps (hL.mem_arrange d) q b)
  have nodup : (opsA ++ opsB).Nodup := by
    refine ((nodup_localOps d p _).of_map).append (nodup_localOps d q _).of_map ?_
    intro op hA hB
    obtain ⟨i, -, idA⟩ := mem_localOps.1 hA
    obtain ⟨j, -, idB⟩ := mem_localOps.1 hB
    exact differ (congrArg OpId.peer (idA.symm.trans idB))
  rw [merged, hL.length_bodyText nodup (replaces.visible known)]
  have texts : textOf (opsA ++ opsB) = textOf opsA ++ textOf opsB := by
    simp [textOf, List.filterMap_append]
  rw [texts, textOf_localOps, textOf_localOps, String.length_append]

/-- An empty body changes nothing in a document without text. -/
theorem Loro.ListCrdt.commit_empty (hL : L.ListCrdt arrange) (empty : L.bodyText d = "")
    (p : UInt64) : commit d p (L.replaceBody d "") = d := by
  rw [hL.replaceBody_eq, hL.arrange_eq_nil empty]
  simp [replaceOps, commit, localOps]

end Merge

/-! ## Written documents -/

/-- The documents that devices come to hold: by a new body, an update, or a snapshot. -/
inductive Written (L : Loro Blob TextOp Digest) : OpLog TextOp → Prop
  | empty : Written L ∅
  | setBody (doc : InterpDoc TextOp) (new : String) (written : Written L doc.inner) :
    Written L (doc.setBody L new).inner
  | applyRemote (doc remote : InterpDoc TextOp) (after : InterpDoc TextOp × List BlockId)
    (written : Written L doc.inner) (theirs : Written L remote.inner)
    (imported : doc.applyRemote L (remote.publishLocal L).updateBytes = some after) :
    Written L after.1.inner
  | fromSnapshot (key : Bytes32) (doc restored : InterpDoc TextOp) (written : Written L doc.inner)
    (opened : InterpDoc.fromSnapshot L key (doc.snapshot L) = some restored) :
    Written L restored.inner

section Written

variable {L : Loro Blob TextOp Digest} {arrange : OpLog TextOp → List (CrdtOp TextOp)}
  {d : OpLog TextOp}

theorem DeletesKnown.commit (hL : L.ListCrdt arrange) (known : DeletesKnown d) (peer : UInt64)
    (new : String) : DeletesKnown (commit d peer (L.replaceBody d new)) := by
  rw [hL.replaceBody_eq]
  intro del hdel target names
  rcases mem_commit.1 hdel with old | mine
  · obtain ⟨op, hop, same⟩ := known del old target names
    exact ⟨op, subset_commit _ _ _ hop, same⟩
  · obtain ⟨op, hop, same⟩ :=
      (replaces_localOps (hL.mem_arrange d) peer new).deletes del mine target names
    exact ⟨op, subset_commit _ _ _ hop, same⟩

theorem DeletesKnown.union {d' : OpLog TextOp} (known : DeletesKnown d) (known' : DeletesKnown d') :
    DeletesKnown (d ∪ d') := by
  intro del hdel target names
  rcases Finset.mem_union.1 hdel with left | right
  · obtain ⟨op, hop, same⟩ := known del left target names
    exact ⟨op, Finset.mem_union_left _ hop, same⟩
  · obtain ⟨op, hop, same⟩ := known' del right target names
    exact ⟨op, Finset.mem_union_right _ hop, same⟩

/-- An update is applied as a union. -/
theorem Loro.SetUnion.applyRemote_publishLocal (hL : L.SetUnion) (doc remote : InterpDoc TextOp) :
    doc.applyRemote L (remote.publishLocal L).updateBytes =
      some ({ doc with inner := doc.inner ∪ remote.inner }, [bodyBlockId]) := by
  simp [InterpDoc.applyRemote, InterpDoc.publishLocal, hL.import_union, hL.decode_updates]

theorem Written.deletesKnown (hL : L.ListCrdt arrange) (written : Written L d) :
    DeletesKnown d := by
  induction written with
  | empty => exact fun del hdel => absurd hdel (Finset.notMem_empty _)
  | setBody doc new _ ih => exact ih.commit hL doc.localPeer new
  | applyRemote doc remote after _ _ imported ih ih' =>
    rw [hL.toSetUnion.applyRemote_publishLocal] at imported
    obtain rfl := Option.some.inj imported
    exact ih.union ih'
  | fromSnapshot key doc restored _ opened ih =>
    rw [InterpDoc.fromSnapshot, InterpDoc.snapshot,
      hL.toSetUnion.restores.restore _ trivial] at opened
    obtain rfl := Option.some.inj opened
    exact ih

end Written

/-! ## Unchanged text -/

/-- The text that `t`, `a` and `b` all begin with appears once in the merge, and a writer who
changes nothing leaves the other's text as it is. -/
structure KeepsCommon (t a b merged : String) : Prop where
  once : ∀ p, p <+: t.toList → p <+: a.toList → p <+: b.toList →
    merged.length + p.length ≤ a.length + b.length
  unchanged : b = t → merged = a

/-- Two devices that hold one document write the bodies `a` and `b` and import each other's
update. Unchanged text appears once in their merge exactly if the old text and the two new
ones have no beginning in common and neither writer republished a text. -/
theorem concurrent_edits_merge_iff {L : Loro Blob TextOp Digest}
    {arrange : OpLog TextOp → List (CrdtOp TextOp)} (hL : L.ListCrdt arrange)
    {d : OpLog TextOp} (written : Written L d) (keyA keyB : Bytes32)
    (differ : peerIdFrom keyA ≠ peerIdFrom keyB) (a b : String) :
    let t := L.bodyText d
    let docA := (InterpDoc.mk d (peerIdFrom keyA)).setBody L a
    let docB := (InterpDoc.mk d (peerIdFrom keyB)).setBody L b
    (∃ mergedA mergedB, docA.applyRemote L (docB.publishLocal L).updateBytes = some mergedA ∧
        docB.applyRemote L (docA.publishLocal L).updateBytes = some mergedB ∧
        KeepsCommon t a b (mergedA.1.bodyText L) ∧ KeepsCommon t a b (mergedB.1.bodyText L)) ↔
      (∀ p, p <+: t.toList → p <+: a.toList → p <+: b.toList → p = []) ∧ (b = t → t = "") := by
  intro t docA docB
  have length : (L.bodyText (docA.inner ∪ docB.inner)).length = a.length + b.length :=
    length_concurrent hL (written.deletesKnown hL) differ a b
  rw [hL.toSetUnion.applyRemote_publishLocal, hL.toSetUnion.applyRemote_publishLocal]
  constructor
  · rintro ⟨mergedA, mergedB, hA, -, keeps, -⟩
    obtain rfl := Option.some.inj hA
    refine ⟨fun p ht ha hb => ?_, fun same => ?_⟩
    · have short : (L.bodyText (docA.inner ∪ docB.inner)).length + p.length ≤
          a.length + b.length := keeps.once p ht ha hb
      exact List.length_eq_zero_iff.1 (by omega)
    · have whole : L.bodyText (docA.inner ∪ docB.inner) = a := keeps.unchanged same
      rw [whole] at length
      have none : b.length = 0 := by omega
      exact same ▸ String.length_eq_zero_iff.1 none
  · rintro ⟨apart, fresh⟩
    have keeps : KeepsCommon t a b (L.bodyText (docA.inner ∪ docB.inner)) := by
      refine ⟨fun p ht ha hb => ?_, fun same => ?_⟩
      · rw [apart p ht ha hb, length]
        exact le_rfl
      · -- nothing was there, and the other writer has written nothing
        have empty : L.bodyText d = "" := fresh same
        obtain rfl : b = "" := same.trans empty
        have quiet : docB.inner = d := hL.commit_empty empty (peerIdFrom keyB)
        have covered : docA.inner ∪ d = docA.inner :=
          Finset.union_eq_left.2 (subset_commit d _ _)
        have replaced := hL.text_replaced d (peerIdFrom keyA) a (written.deletesKnown hL)
        rw [← hL.replaceBody_eq] at replaced
        rw [quiet, covered]
        exact replaced
    refine ⟨_, _, rfl, rfl, keeps, ?_⟩
    have same : docB.inner ∪ docA.inner = docA.inner ∪ docB.inner := Finset.union_comm _ _
    simpa only [InterpDoc.bodyText, same] using keeps

/-! ## Texts in the order of their counters -/

def TextOp.rank : TextOp → ℕ ×ₗ ℕ ×ₗ ℕ
  | .insert pos value => toLex (0, toLex (pos, value.toNat))
  | .delete target => toLex (1, toLex (target.peer.toNat, target.counter))

/-- Elements are compared by their counters first. -/
def CrdtOp.rank (op : CrdtOp TextOp) : ℕ ×ₗ ℕ ×ₗ (ℕ ×ₗ ℕ ×ₗ ℕ) :=
  toLex (op.id.counter, toLex (op.id.peer.toNat, op.content.rank))

theorem TextOp.rank_injective : Function.Injective TextOp.rank := by
  rintro (⟨pos, value⟩ | ⟨⟨peer, counter⟩⟩) (⟨pos', value'⟩ | ⟨⟨peer', counter'⟩⟩) same
  · simp_all [TextOp.rank, Char.toNat_inj]
  · simp [TextOp.rank] at same
  · simp [TextOp.rank] at same
  · simp_all [TextOp.rank, UInt64.toNat_inj]

theorem CrdtOp.rank_injective : Function.Injective CrdtOp.rank := by
  rintro ⟨⟨peer, counter⟩, content⟩ ⟨⟨peer', counter'⟩, content'⟩ same
  simp only [CrdtOp.rank, EmbeddingLike.apply_eq_iff_eq, Prod.mk.injEq, UInt64.toNat_inj] at same
  obtain ⟨rfl, rfl, content⟩ := same
  obtain rfl := TextOp.rank_injective content
  rfl

instance : LinearOrder (CrdtOp TextOp) := LinearOrder.lift' CrdtOp.rank CrdtOp.rank_injective

/-- A library that keeps its operations as they are. -/
def counterLoro : Loro (OpLog TextOp) TextOp Bytes where
  exportSnapshot := id
  exportUpdates := id
  decode := some
  importInto d b := some (d ∪ b)
  bodyText d := textOf (visible d).sort
  deleteText d pos len := (((visible d).sort.drop pos).take len).map fun op => .delete op.id
  insertText _ pos new := new.toList.zipIdx.map fun c => .insert (pos + c.2) c.1
  stateFrontiers d := d.sort.getLast?.toList.map CrdtOp.id
  hash := id

theorem CrdtOp.le_of_counter_lt {op op' : CrdtOp TextOp} (lt : op.id.counter < op'.id.counter) :
    op ≤ op' := by
  have ranks : op.rank ≤ op'.rank := Prod.Lex.toLex_le_toLex.2 (.inl lt)
  exact ranks

/-- Operations of one peer are arranged as it made them. -/
theorem pairwise_localOps (d : OpLog TextOp) (peer : UInt64) (contents : List TextOp) :
    (localOps d peer contents).Pairwise (· ≤ ·) := by
  refine List.pairwise_map.2 ?_
  have counters : (contents.zipIdx.map Prod.snd).Pairwise (· < ·) := by
    rw [List.zipIdx_map_snd]
    exact List.pairwise_lt_range'
  refine (List.pairwise_map.1 counters).imp fun {c c'} lt => CrdtOp.le_of_counter_lt ?_
  exact Nat.add_lt_add_left lt _

theorem textOf_filter (els : List (CrdtOp TextOp)) :
    textOf (els.filter fun op => op.content.value.isSome) = textOf els := by
  rw [textOf, textOf, List.filterMap_filter]
  congr 2
  funext op
  cases op.content.value <;> rfl

theorem counterLoro_listCrdt : counterLoro.ListCrdt fun d => (visible d).sort where
  decode_snapshot _ := rfl
  decode_updates _ := rfl
  import_union _ _ := rfl
  nodup_arrange d := Finset.sort_nodup _ _
  mem_arrange d op := Finset.mem_sort _
  bodyText_eq _ := rfl
  deleteText_eq _ _ _ := rfl
  insertText_eq _ _ _ := rfl
  text_replaced d peer new known := by
    let ops := localOps d peer (replaceOps (visible d).sort new)
    have replaces : Replaces d ops :=
      replaces_localOps (fun op => Finset.mem_sort (· ≤ ·)) peer new
    have shown : visible (commit d peer (replaceOps (visible d).sort new)) =
        (ops.filter fun op => op.content.value.isSome).toFinset := replaces.visible known
    have sorted : (ops.filter fun op => op.content.value.isSome).toFinset.sort =
        ops.filter fun op => op.content.value.isSome :=
      (List.toFinset_sort (· ≤ ·) ((nodup_localOps d peer _).of_map.filter _)).2
        ((pairwise_localOps d peer _).filter _)
    have arranged : counterLoro.bodyText (commit d peer (replaceOps (visible d).sort new)) =
        textOf (visible (commit d peer (replaceOps (visible d).sort new))).sort := rfl
    rw [arranged, shown, sorted, textOf_filter]
    exact textOf_localOps d peer _ new

/-! ## Two writers who each add a mark -/

/-- The key `n, n, …`. -/
def writerKey (n : UInt8) : Bytes32 := Vector.replicate 32 n

/-- A document with a reading by the first writer. -/
def sunDoc : InterpDoc TextOp := (InterpDoc.empty (writerKey 1)).setBody counterLoro "sun"

theorem written_sunDoc : Written counterLoro sunDoc.inner := .setBody _ _ .empty

theorem bodyText_sunDoc : counterLoro.bodyText sunDoc.inner = "sun" := by
  rw [sunDoc, InterpDoc.setBody, counterLoro_listCrdt.replaceBody_eq]
  exact counterLoro_listCrdt.text_replaced ∅ _ "sun" fun _ hdel =>
    absurd hdel (Finset.notMem_empty _)

theorem concurrent_edits_merge_iff_sun :
    let docA := (InterpDoc.mk sunDoc.inner (peerIdFrom (writerKey 2))).setBody counterLoro "sun!"
    let docB := (InterpDoc.mk sunDoc.inner (peerIdFrom (writerKey 3))).setBody counterLoro "sun?"
    let t := counterLoro.bodyText sunDoc.inner
    (∃ mergedA mergedB,
        docA.applyRemote counterLoro (docB.publishLocal counterLoro).updateBytes = some mergedA ∧
        docB.applyRemote counterLoro (docA.publishLocal counterLoro).updateBytes = some mergedB ∧
        KeepsCommon t "sun!" "sun?" (mergedA.1.bodyText counterLoro) ∧
        KeepsCommon t "sun!" "sun?" (mergedB.1.bodyText counterLoro)) ↔
      (∀ p, p <+: t.toList → p <+: "sun!".toList → p <+: "sun?".toList → p = []) ∧
        ("sun?" = t → t = "") :=
  concurrent_edits_merge_iff counterLoro_listCrdt written_sunDoc (writerKey 2) (writerKey 3)
    (by decide) "sun!" "sun?"

/-- The reading both have left in place is there twice. -/
theorem sun_doubled :
    let docA := (InterpDoc.mk sunDoc.inner (peerIdFrom (writerKey 2))).setBody counterLoro "sun!"
    let docB := (InterpDoc.mk sunDoc.inner (peerIdFrom (writerKey 3))).setBody counterLoro "sun?"
    docA.applyRemote counterLoro (docB.publishLocal counterLoro).updateBytes =
        some ({ docA with inner := docA.inner ∪ docB.inner }, [bodyBlockId]) ∧
      ¬ KeepsCommon (counterLoro.bodyText sunDoc.inner) "sun!" "sun?"
        (counterLoro.bodyText (docA.inner ∪ docB.inner)) := by
  intro docA docB
  have length : (counterLoro.bodyText (docA.inner ∪ docB.inner)).length = 4 + 4 :=
    length_concurrent counterLoro_listCrdt (written_sunDoc.deletesKnown counterLoro_listCrdt)
      (by decide) "sun!" "sun?"
  refine ⟨rfl, fun keeps => ?_⟩
  rw [bodyText_sunDoc] at keeps
  have short := keeps.once "sun".toList (by decide) (by decide) (by decide)
  rw [length] at short
  exact absurd short (by decide)

end Zodia.Doc
