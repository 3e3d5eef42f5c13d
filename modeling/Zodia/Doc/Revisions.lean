import Mathlib.Logic.Function.Basic
import Zodia.Doc.InterpDoc
import Zodia.Lib.Heads
import Zodia.Lib.Run

/-!
# Revision ids

The revision id of a document is a hash of its frontiers: the ids on which no operation of the
document depends. `current_rev` writes the ids one after the other in the order in which the
library iterates over the frontiers, and does not sort them. So documents with equal frontiers,
which hold the same operations, get one revision id only if the iterations agree.

A replica stands under its Loro peer id, and edits under it. An edit follows all operations of
its replica, and a publication carries all of them. Other devices import any publication, at any
time and any number of times.

## Main definitions

* `frontiers`, `Iterates` — the heads of a document, and the orders of iterating over them.
* `Replicas.step` — an edit, a publication or an import.
* `Causal`, `Replicas.Consistent` — what every document, and all of them together, keep.

## Main results

* `frontiers_inj` — frontiers determine the operations of a reachable document.
* `current_rev_identifies_iff` — when revision ids identify documents.
* `currentRev_eq_iff` — they do if equal frontiers are always iterated in one order.
-/

namespace Zodia.Doc

open Lib

variable {C Digest : Type}

/-! ## Operations and what they follow -/

/-- An operation as the frontiers see it: the ids it follows, its Lamport time, and what it does
to the text. -/
structure Change (C : Type) where
  deps : Finset OpId
  lamport : ℕ
  content : C
  deriving DecidableEq

abbrev History (C : Type) := OpLog (Change C)

/-- The ids that an operation follows. -/
def follows (op : CrdtOp (Change C)) : Finset OpId := op.content.deps

def lamport (op : CrdtOp (Change C)) : ℕ := op.content.lamport

/-- The ids that no operation of the document follows. -/
def frontiers (d : History C) : Finset OpId := heads CrdtOp.id follows d

def nextLamport (d : History C) : ℕ := d.sup fun op => lamport op + 1

/-- The operation at place `i` of an edit. The first follows the frontiers, and each other one
the operation before it. -/
def change (d : History C) (peer : UInt64) (i : ℕ) (content : C) : Change C :=
  ⟨if i = 0 then frontiers d else {⟨peer, nextCounter d peer + (i - 1)⟩}, nextLamport d + i,
    content⟩

/-- The document with an edit of the peer. -/
def edit [DecidableEq C] (d : History C) (peer : UInt64) (contents : List C) : History C :=
  commit d peer (contents.zipIdx.map fun c => change d peer c.2 c.1)

/-! ## Revision ids -/

/-- The library can iterate over the frontiers in this order. -/
def Iterates (frontier : Finset OpId) (ids : List OpId) : Prop :=
  ids.Nodup ∧ ids.toFinset = frontier

instance (frontier : Finset OpId) (ids : List OpId) : Decidable (Iterates frontier ids) :=
  inferInstanceAs (Decidable (_ ∧ _))

/-- Counters are non-negative 32-bit integers. -/
def counterLimit : ℕ := 2 ^ 31

/-! ## Replicas -/

/-- The documents of the peers, and all that was published. -/
structure Replicas (C : Type) where
  docs : UInt64 → History C
  published : List (History C)

inductive ReplicaEvent (C : Type) where
  | edit (peer : UInt64) (contents : List C)
  | publish (peer : UInt64)
  | importUpdate (peer : UInt64) (i : ℕ)

namespace Replicas

def fresh : Replicas C := ⟨fun _ => ∅, []⟩

def put (s : Replicas C) (peer : UInt64) (d : History C) : Replicas C :=
  { s with docs := Function.update s.docs peer d }

@[simp] theorem docs_put_self (s : Replicas C) (peer : UInt64) (d : History C) :
    (s.put peer d).docs peer = d := Function.update_self ..

theorem docs_put_other (s : Replicas C) {peer other : UInt64} (ne : other ≠ peer) (d : History C) :
    (s.put peer d).docs other = s.docs other := Function.update_of_ne ne ..

variable [DecidableEq C]

/-- One event. An edit beyond the last counter is not made. -/
def step (s : Replicas C) : ReplicaEvent C → Replicas C
  | .edit peer contents =>
    if nextCounter (s.docs peer) peer + contents.length ≤ counterLimit then
      s.put peer (Doc.edit (s.docs peer) peer contents)
    else s
  | .publish peer => { s with published := s.docs peer :: s.published }
  | .importUpdate peer i =>
    match s.published[i]? with
    | none => s
    | some update => s.put peer (s.docs peer ∪ update)

end Replicas

/-! ## What an edit adds -/

/-- The operations of a document depend on its older ones. -/
structure Causal (d : History C) : Prop where
  closed : DependsWithin CrdtOp.id follows d
  older : DependsOnOlder CrdtOp.id follows lamport d

theorem lamport_lt_nextLamport {d : History C} {op : CrdtOp (Change C)} (h : op ∈ d) :
    lamport op < nextLamport d :=
  Finset.le_sup (f := fun op : CrdtOp (Change C) => lamport op + 1) h

theorem mem_changes {d : History C} {peer : UInt64} {contents : List C} {op : CrdtOp (Change C)} :
    op ∈ localOps d peer (contents.zipIdx.map fun c => change d peer c.2 c.1) ↔
      ∃ i content, contents[i]? = some content ∧
        op = ⟨⟨peer, nextCounter d peer + i⟩, change d peer i content⟩ := by
  rw [mem_localOps]
  constructor
  · rintro ⟨i, hi, id⟩
    rw [List.getElem?_map, List.getElem?_zipIdx, Option.map_map] at hi
    obtain ⟨content, hc, same⟩ := Option.map_eq_some_iff.1 hi
    refine ⟨i, content, hc, ?_⟩
    cases op
    simp_all
  · rintro ⟨i, content, hc, rfl⟩
    exact ⟨i, by simp [hc], rfl⟩

variable [DecidableEq C] {d : History C} {peer : UInt64} {contents : List C}

theorem mem_edit {op : CrdtOp (Change C)} :
    op ∈ edit d peer contents ↔ op ∈ d ∨ ∃ i content, contents[i]? = some content ∧
      op = ⟨⟨peer, nextCounter d peer + i⟩, change d peer i content⟩ := by
  rw [edit, mem_commit, mem_changes]

/-- An edit follows what is there and itself. -/
theorem Causal.edit (h : Causal d) (peer : UInt64) (contents : List C) :
    Causal (edit d peer contents) where
  closed := by
    intro op hop k hk
    rcases mem_edit.1 hop with old | ⟨i, content, hi, rfl⟩
    · obtain ⟨b, hb, same⟩ := h.closed op old k hk
      exact ⟨b, subset_commit _ _ _ hb, same⟩
    · cases i with
      | zero =>
        obtain ⟨⟨b, hb, same⟩, -⟩ := mem_heads.1 (hk : k ∈ frontiers d)
        exact ⟨b, subset_commit _ _ _ hb, same⟩
      | succ i =>
        obtain rfl : k = ⟨peer, nextCounter d peer + i⟩ := Finset.mem_singleton.1 hk
        have before : i < contents.length := by
          have := (List.getElem?_eq_some_iff.1 hi).1
          omega
        exact ⟨_, mem_edit.2 (.inr ⟨i, contents[i], List.getElem?_eq_getElem before, rfl⟩), rfl⟩
  older := by
    intro a ha b hb dep
    rcases mem_edit.1 hb with oldB | ⟨j, content, hj, rfl⟩
    · -- what an old operation follows is old
      obtain ⟨c, hc, same⟩ := h.closed b oldB _ dep
      rcases mem_edit.1 ha with oldA | ⟨i, content', hi, rfl⟩
      · exact h.older a oldA b oldB dep
      · exact absurd same (id_ne_of_localOps hc (mem_changes.2 ⟨i, content', hi, rfl⟩))
    · rcases mem_edit.1 ha with oldA | ⟨i, content', hi, rfl⟩
      · exact (lamport_lt_nextLamport oldA).trans_le (Nat.le_add_right _ _)
      · cases j with
        | zero =>
          obtain ⟨⟨c, hc, same⟩, -⟩ := mem_heads.1 (dep : _ ∈ frontiers d)
          exact absurd same (id_ne_of_localOps hc (mem_changes.2 ⟨i, content', hi, rfl⟩))
        | succ j =>
          have same : (⟨peer, nextCounter d peer + i⟩ : OpId) = ⟨peer, nextCounter d peer + j⟩ :=
            Finset.mem_singleton.1 dep
          have before : i = j := by
            have := congrArg OpId.counter same
            dsimp only at this
            omega
          exact before ▸ Nat.lt_succ_self _

/-! ## What every run keeps -/

namespace Replicas

variable {s : Replicas C}

/-- The document is a replica or was published. -/
def Holds (s : Replicas C) (d : History C) : Prop := (∃ peer, s.docs peer = d) ∨ d ∈ s.published

/-- Every operation is in the replica of its own peer, where an id stands for one operation. -/
structure Consistent (s : Replicas C) : Prop where
  causal : ∀ d, s.Holds d → Causal d
  home : ∀ d, s.Holds d → ∀ op ∈ d, op ∈ s.docs op.id.peer
  oneOpPerId : ∀ peer, OneOpPerId (s.docs peer)
  counters : ∀ peer, ∀ op ∈ s.docs peer, op.id.counter < counterLimit

omit [DecidableEq C] in
/-- Documents agree on what an id stands for. -/
theorem Consistent.agree (h : s.Consistent) {d d' : History C} (hd : s.Holds d)
    (hd' : s.Holds d') : AgreeOnKeys CrdtOp.id d d' := fun a ha b hb same =>
  h.oneOpPerId a.id.peer a (h.home d hd a ha) b (same ▸ h.home d' hd' b hb) same

omit [DecidableEq C] in
theorem holds_put {d' : History C} (h : (s.put peer d).Holds d') : s.Holds d' ∨ d' = d := by
  rcases h with ⟨other, rfl⟩ | published
  · by_cases same : other = peer
    · subst same
      exact .inr (docs_put_self ..)
    · exact .inl (.inl ⟨other, (docs_put_other s same d).symm⟩)
  · exact .inl (.inr published)

omit [DecidableEq C] in
/-- A replica may grow by operations of its own peer, and by those that others hold. -/
theorem Consistent.put (h : s.Consistent) (grows : s.docs peer ⊆ d) (causal : Causal d)
    (home : ∀ op ∈ d, op.id.peer ≠ peer → op ∈ s.docs op.id.peer) (one : OneOpPerId d)
    (counters : ∀ op ∈ d, op.id.counter < counterLimit) : (s.put peer d).Consistent where
  causal d' hd' := by
    rcases holds_put hd' with old | rfl
    · exact h.causal d' old
    · exact causal
  home d' hd' op hop := by
    by_cases own : op.id.peer = peer
    · rw [own, docs_put_self]
      rcases holds_put hd' with old | rfl
      · exact grows (own ▸ h.home d' old op hop)
      · exact hop
    · rw [docs_put_other s own]
      rcases holds_put hd' with old | rfl
      · exact h.home d' old op hop
      · exact home op hop own
  oneOpPerId other := by
    by_cases same : other = peer
    · subst same
      rwa [docs_put_self]
    · rw [docs_put_other s same]
      exact h.oneOpPerId other
  counters other := by
    by_cases same : other = peer
    · subst same
      rwa [docs_put_self]
    · rw [docs_put_other s same]
      exact h.counters other

theorem Consistent.step (h : s.Consistent) (e : ReplicaEvent C) : (s.step e).Consistent := by
  cases e with
  | edit peer contents =>
    rw [Replicas.step]
    split_ifs with room
    · have mine : s.Holds (s.docs peer) := .inl ⟨peer, rfl⟩
      refine h.put (subset_commit _ _ _) ((h.causal _ mine).edit peer contents) ?_
        (oneOpPerId_commit (h.oneOpPerId peer) peer _) ?_
      · intro op hop foreign
        rcases mem_edit.1 hop with old | ⟨i, content, -, rfl⟩
        · exact h.home _ mine op old
        · exact absurd rfl foreign
      · intro op hop
        rcases mem_edit.1 hop with old | ⟨i, content, hi, rfl⟩
        · exact h.counters peer op old
        · have := (List.getElem?_eq_some_iff.1 hi).1
          dsimp only
          omega
    · exact h
  | publish peer =>
    have old : ∀ d, (s.step (.publish peer)).Holds d → s.Holds d := by
      rintro d (replica | published)
      · exact .inl replica
      · rcases List.mem_cons.1 published with rfl | earlier
        · exact .inl ⟨peer, rfl⟩
        · exact .inr earlier
    exact ⟨fun d hd => h.causal d (old d hd), fun d hd => h.home d (old d hd), h.oneOpPerId,
      h.counters⟩
  | importUpdate peer i =>
    rw [Replicas.step]
    cases found : s.published[i]? with
    | none => exact h
    | some update =>
      have mine : s.Holds (s.docs peer) := .inl ⟨peer, rfl⟩
      have theirs : s.Holds update := .inr (List.mem_of_getElem? found)
      have held : ∀ op ∈ s.docs peer ∪ update, op ∈ s.docs op.id.peer := by
        intro op hop
        rcases Finset.mem_union.1 hop with hop | hop
        · exact h.home _ mine op hop
        · exact h.home _ theirs op hop
      refine h.put Finset.subset_union_left ⟨?_, ?_⟩ (fun op hop _ => held op hop) ?_
        fun op hop => h.counters _ op (held op hop)
      · exact (h.causal _ mine).closed.union (h.causal _ theirs).closed
      · exact (h.causal _ mine).older.union (h.causal _ theirs).older (h.causal _ mine).closed
          (h.causal _ theirs).closed (h.agree mine theirs)
      · intro a ha b hb same
        exact h.oneOpPerId a.id.peer a (held a ha) b (same ▸ held b hb) same

omit [DecidableEq C] in
theorem consistent_fresh : (fresh : Replicas C).Consistent where
  causal := by
    rintro d (⟨peer, rfl⟩ | none)
    · exact ⟨fun a ha => absurd ha (Finset.notMem_empty a),
        fun a ha => absurd ha (Finset.notMem_empty a)⟩
    · exact absurd none List.not_mem_nil
  home := by
    rintro d (⟨peer, rfl⟩ | none) op hop
    · exact absurd hop (Finset.notMem_empty op)
    · exact absurd none List.not_mem_nil
  oneOpPerId _ := oneOpPerId_empty
  counters _ op hop := absurd hop (Finset.notMem_empty op)

theorem consistent_exec (es : List (ReplicaEvent C)) : (exec step fresh es).Consistent :=
  exec_keeps Consistent (fun _ e h => h.step e) consistent_fresh es

omit [DecidableEq C] in
/-- Equal frontiers are frontiers of the same operations. -/
theorem Consistent.frontiers_inj (h : s.Consistent) {d d' : History C} (hd : s.Holds d)
    (hd' : s.Holds d') : frontiers d = frontiers d' ↔ d = d' :=
  heads_inj (h.causal d hd).older (h.causal d' hd').older (h.causal d hd).closed
    (h.causal d' hd').closed (h.agree hd hd')

end Replicas

/-! ## The ids as bytes -/

theorem length_littleEndian (k n : ℕ) : (littleEndian k n).length = k := by
  induction k generalizing n with
  | zero => rfl
  | succ k ih => rw [littleEndian, List.length_cons, ih]

theorem littleEndian_inj {k n m : ℕ} (hn : n < 256 ^ k) (hm : m < 256 ^ k)
    (same : littleEndian k n = littleEndian k m) : n = m := by
  induction k generalizing n m with
  | zero => omega
  | succ k ih =>
    obtain ⟨first, rest⟩ := List.cons.inj same
    have low : n % 256 = m % 256 := by
      have := congrArg UInt8.toNat first
      simpa [UInt8.toNat_ofNat'] using this
    have high : n / 256 = m / 256 :=
      ih (Nat.div_lt_of_lt_mul (by rwa [← pow_succ'])) (Nat.div_lt_of_lt_mul (by rwa [← pow_succ']))
        rest
    omega

theorem OpId.length_bytes (id : OpId) : id.bytes.length = 12 := by
  rw [OpId.bytes, List.length_append, length_littleEndian, length_littleEndian]

theorem OpId.bytes_inj {a b : OpId} (ha : a.counter < counterLimit) (hb : b.counter < counterLimit)
    (same : a.bytes = b.bytes) : a = b := by
  have parts := List.append_inj same (by rw [length_littleEndian, length_littleEndian])
  have peers : a.peer = b.peer := UInt64.toNat_inj.1
    (littleEndian_inj a.peer.toNat_lt b.peer.toNat_lt parts.1)
  have counters : a.counter = b.counter := by
    unfold counterLimit at ha hb
    exact littleEndian_inj (by omega) (by omega) parts.2
  cases a
  cases b
  simp_all

/-- The concatenation of ids determines the list of them. -/
theorem flatMap_bytes_inj {l m : List OpId} (hl : ∀ id ∈ l, id.counter < counterLimit)
    (hm : ∀ id ∈ m, id.counter < counterLimit)
    (same : l.flatMap OpId.bytes = m.flatMap OpId.bytes) : l = m := by
  induction l generalizing m with
  | nil =>
    cases m with
    | nil => rfl
    | cons b m =>
      have lengths := congrArg List.length same
      simp only [List.flatMap_nil, List.flatMap_cons, List.length_append, List.length_nil,
        OpId.length_bytes] at lengths
      omega
  | cons a l ih =>
    cases m with
    | nil =>
      have lengths := congrArg List.length same
      simp only [List.flatMap_nil, List.flatMap_cons, List.length_append, List.length_nil,
        OpId.length_bytes] at lengths
      omega
    | cons b m =>
      rw [List.flatMap_cons, List.flatMap_cons] at same
      have parts := List.append_inj same (by rw [OpId.length_bytes, OpId.length_bytes])
      rw [OpId.bytes_inj (hl a List.mem_cons_self) (hm b List.mem_cons_self) parts.1,
        ih (fun id h => hl id (List.mem_cons_of_mem _ h))
          (fun id h => hm id (List.mem_cons_of_mem _ h)) parts.2]

/-! ## Revision ids of replicas -/

omit [DecidableEq C] in
/-- The ids that a replica iterates over have counters of 32 bits. -/
theorem Iterates.counters {s : Replicas C} (consistent : s.Consistent) {peer : UInt64}
    {ids : List OpId} (iter : Iterates (frontiers (s.docs peer)) ids) :
    ∀ id ∈ ids, id.counter < counterLimit := by
  intro id hid
  rw [← List.mem_toFinset, iter.2] at hid
  obtain ⟨⟨op, hop, rfl⟩, -⟩ := mem_heads.1 hid
  exact consistent.counters peer op hop

omit [DecidableEq C] in
/-- Revision ids are equal just in case the same ids are hashed in the same order. -/
theorem currentRev_inj {hash : Bytes → Digest} (inj : Function.Injective hash)
    {s : Replicas C} (consistent : s.Consistent) {p q : UInt64} {idsP idsQ : List OpId}
    (iterP : Iterates (frontiers (s.docs p)) idsP) (iterQ : Iterates (frontiers (s.docs q)) idsQ) :
    currentRev hash idsP = currentRev hash idsQ ↔ idsP = idsQ :=
  ⟨fun same => flatMap_bytes_inj (iterP.counters consistent) (iterQ.counters consistent)
    (inj same), fun same => same ▸ rfl⟩

open Replicas in
/-- The revision ids of two replicas of a run are equal just in case their frontiers are, which is
when they hold the same operations, exactly if equal frontiers are iterated in one order. -/
theorem current_rev_identifies_iff {hash : Bytes → Digest} (inj : Function.Injective hash)
    (es : List (ReplicaEvent C)) (p q : UInt64) {idsP idsQ : List OpId}
    (iterP : Iterates (frontiers ((exec step fresh es).docs p)) idsP)
    (iterQ : Iterates (frontiers ((exec step fresh es).docs q)) idsQ) :
    let s := exec step fresh es
    ((currentRev hash idsP = currentRev hash idsQ ↔
          frontiers (s.docs p) = frontiers (s.docs q)) ∧
        (frontiers (s.docs p) = frontiers (s.docs q) ↔ s.docs p = s.docs q)) ↔
      (frontiers (s.docs p) = frontiers (s.docs q) → idsP = idsQ) := by
  have consistent := consistent_exec es
  intro s
  have revs : currentRev hash idsP = currentRev hash idsQ ↔ idsP = idsQ :=
    currentRev_inj inj consistent iterP iterQ
  have states : frontiers (s.docs p) = frontiers (s.docs q) ↔ s.docs p = s.docs q :=
    consistent.frontiers_inj (.inl ⟨p, rfl⟩) (.inl ⟨q, rfl⟩)
  rw [revs]
  constructor
  · exact fun h => h.1.2
  · refine fun ordered => ⟨⟨fun same => ?_, ordered⟩, states⟩
    rw [← iterP.2, ← iterQ.2, same]

/-- One replica edits, and the other one imports it. -/
theorem current_rev_identifies_iff_oneHead :
    let s := exec Replicas.step Replicas.fresh
      [.edit 1 ["warm"], .publish 1, .importUpdate 2 0]
    currentRev id [⟨1, 0⟩] = currentRev id [⟨1, 0⟩] ↔
      frontiers (s.docs 1) = frontiers (s.docs 2) :=
  ((current_rev_identifies_iff Function.injective_id
    [.edit 1 ["warm"], .publish 1, .importUpdate 2 0] 1 2 (by decide) (by decide)).mpr
      fun _ => rfl).1

/-- Two replicas edit and import the edits of each other. They hold the same operations and have
the same frontiers, of two ids, and two revision ids. -/
theorem two_heads_two_revisions :
    let s := exec Replicas.step Replicas.fresh
      [.edit 1 ["warm"], .edit 2 ["cold"], .publish 1, .publish 2, .importUpdate 1 0,
        .importUpdate 2 1]
    Iterates (frontiers (s.docs 1)) [⟨1, 0⟩, ⟨2, 0⟩] ∧
      Iterates (frontiers (s.docs 2)) [⟨2, 0⟩, ⟨1, 0⟩] ∧ s.docs 1 = s.docs 2 ∧
      currentRev id [⟨1, 0⟩, ⟨2, 0⟩] ≠ currentRev id [⟨2, 0⟩, ⟨1, 0⟩] := by
  intro s
  decide

open Replicas in
/-- A library that iterates over equal frontiers in one order gives two replicas one revision id
exactly if they hold the same operations. -/
theorem currentRev_eq_iff {Blob : Type} {L : Loro Blob (Change C) Digest}
    (inj : Function.Injective L.hash) (iterates : ∀ d, Iterates (frontiers d) (L.stateFrontiers d))
    (es : List (ReplicaEvent C)) (p q : UInt64) :
    let s := exec step fresh es
    (InterpDoc.mk (s.docs p) p).currentRev L = (InterpDoc.mk (s.docs q) q).currentRev L ↔
      s.docs p = s.docs q := by
  have consistent := consistent_exec es
  intro s
  rw [InterpDoc.currentRev, InterpDoc.currentRev, Loro.currentRev, Loro.currentRev,
    currentRev_inj inj consistent (iterates _) (iterates _)]
  constructor
  · intro same
    refine (consistent.frontiers_inj (.inl ⟨p, rfl⟩) (.inl ⟨q, rfl⟩)).1 ?_
    rw [← (iterates (s.docs p)).2, ← (iterates (s.docs q)).2, same]
  · exact fun same => same ▸ rfl

end Zodia.Doc
