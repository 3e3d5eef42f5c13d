import Mathlib.Data.Multiset.Basic
import Zodia.App.PeerMessages

/-!
# Broadcast display names

A peer chooses the timestamps of its `SetDisplayName` operations. The store keeps the name of an
operation unless the name on file is as new, and compares the unsigned timestamps as signed
numbers. So of the operations with the greatest signed timestamp the one that arrives first is
kept: among equal timestamps the order of arrival decides, and a timestamp from `2 ^ 63` on counts
as older than any below.

## Main definitions

* `NameOp` — an operation of a peer.
* `deliverNames` — the table after operations of several peers have arrived.
* `LastWriterWins` — the name with the greatest timestamp is kept, in whatever order they arrive.

## Main results

* `find?_deliverNames` — which operation is kept.
* `lastWriterWins_iff` — when the last writer wins.
-/

namespace Zodia.App

open Lib

/-- A `SetDisplayName` operation of a peer. -/
structure NameOp where
  name : String
  timestamp : UInt64
  deriving DecidableEq

/-- The timestamp as the store compares it. -/
def NameOp.signed (op : NameOp) : ℤ := op.timestamp.toInt64.toInt

/-- The row that the operation writes. -/
def NameOp.row (op : NameOp) (peerPk : PeerId) : DisplayNameRow :=
  ⟨peerPk, op.name, op.timestamp.toInt64⟩

/-- The table after operations have arrived, each with the peer it is of. -/
def deliverNames (arrivals : List (PeerId × NameOp)) : DisplayNameTable :=
  arrivals.foldl (fun t a => (t.setIfNewer a.1 a.2.name a.2.timestamp).1) Table.empty

/-- The operations of the peer, in the order of their arrival. -/
def namesOf (peerPk : PeerId) (arrivals : List (PeerId × NameOp)) : List NameOp :=
  (arrivals.filter fun a => a.1 = peerPk).map Prod.snd

def DisplayNameTable.peerDisplayName (t : DisplayNameTable) (peerPk : PeerId) : Option String :=
  (t.find? peerPk).map (·.name)

/-- In whatever order the operations of the peer arrive, and whatever arrives of other peers, one
name is stored, and it is the name of an operation with the greatest timestamp. -/
def LastWriterWins (peerPk : PeerId) (ops : Multiset NameOp) : Prop :=
  ops ≠ 0 → ∃ newest ∈ ops, (∀ op ∈ ops, op.timestamp ≤ newest.timestamp) ∧
    ∀ arrivals, (namesOf peerPk arrivals : Multiset NameOp) = ops →
      (deliverNames arrivals).peerDisplayName peerPk = some newest.name

/-- The operations that are the newest by their signed timestamps all have the name of one that is
the newest. -/
def SignedNewestAgree (ops : Multiset NameOp) : Prop :=
  ops ≠ 0 → ∃ newest ∈ ops, (∀ op ∈ ops, op.timestamp ≤ newest.timestamp) ∧
    ∀ op ∈ ops, (∀ op' ∈ ops, op'.signed ≤ op.signed) → op.name = newest.name

/-! ## Which operation is kept -/

theorem find?_setIfNewer (t : DisplayNameTable) (peerPk peer : PeerId) (op : NameOp) :
    (t.setIfNewer peerPk op.name op.timestamp).1.find? peer =
      if peerPk = peer then
        match t.find? peer with
        | none => some (op.row peer)
        | some row => if row.updatedAt < op.timestamp.toInt64 then some (op.row peer) else some row
      else t.find? peer := by
  unfold DisplayNameTable.setIfNewer
  cases found : t.find? peerPk with
  | none =>
    dsimp only
    rw [Table.find?_insertOrIgnore (Table.find?_eq_none.1 found)]
    split_ifs with same
    · subst same
      rw [found]
      rfl
    · rfl
  | some row =>
    have named := (Table.find?_eq_some.1 found).2
    dsimp only
    split_ifs with newer same same
    · subst same
      rw [Table.find?_modify, if_pos rfl, found]
      simp [newer, NameOp.row, named]
    · rw [Table.find?_modify, if_neg same]
    · subst same
      simp [found, newer]
    · rfl

/-- Of the operations of a peer the first with the greatest signed timestamp is kept. -/
theorem find?_deliverNames (arrivals : List (PeerId × NameOp)) (peerPk : PeerId) :
    (deliverNames arrivals).find? peerPk =
      ((namesOf peerPk arrivals).maxOn? NameOp.signed).map fun op => op.row peerPk := by
  induction arrivals using List.reverseRecOn with
  | nil => rfl
  | append_singleton arrivals a ih =>
    rw [deliverNames, List.foldl_append, ← deliverNames, List.foldl_cons, List.foldl_nil,
      find?_setIfNewer, ih]
    split_ifs with same
    · have later : namesOf peerPk (arrivals ++ [a]) = namesOf peerPk arrivals ++ [a.2] := by
        simp [namesOf, same]
      rw [later, List.maxOn?_append, List.maxOn?_singleton]
      cases (namesOf peerPk arrivals).maxOn? NameOp.signed with
      | none => rfl
      | some kept =>
        have signed : (kept.row peerPk).updatedAt < a.2.timestamp.toInt64 ↔
            ¬ a.2.signed ≤ kept.signed := Int64.lt_iff_toInt_lt.trans Int.not_le.symm
        dsimp only [Option.map_some, Option.merge_some_some]
        by_cases newer : a.2.signed ≤ kept.signed
        · rw [if_neg (signed.not_left.2 newer), maxOn_eq_left newer]
        · rw [if_pos (signed.2 newer), maxOn_eq_right newer]
    · have others : namesOf peerPk (arrivals ++ [a]) = namesOf peerPk arrivals := by
        simp [namesOf, same]
      rw [others]

/-! ## The last writer -/

variable {ops : Multiset NameOp} {peerPk : PeerId}

theorem namesOf_map (peerPk : PeerId) (ops : List NameOp) :
    namesOf peerPk (ops.map fun op => (peerPk, op)) = ops := by
  induction ops with
  | nil => rfl
  | cons op ops ih => simpa [namesOf] using ih

/-- The operations of a peer can arrive with a given one first. -/
theorem exists_arrivals_first {first : NameOp} (h : first ∈ ops) (peerPk : PeerId) :
    ∃ arrivals rest, (namesOf peerPk arrivals : Multiset NameOp) = ops ∧
      namesOf peerPk arrivals = first :: rest := by
  obtain ⟨rest, rfl⟩ := Multiset.exists_cons_of_mem h
  induction rest using Quotient.inductionOn with
  | _ rest =>
    refine ⟨(first :: rest).map fun op => (peerPk, op), rest, ?_, namesOf_map _ _⟩
    rw [namesOf_map]
    rfl

/-- The last writer wins exactly if the operations with the greatest signed timestamp all have the
name of one with the greatest timestamp. -/
theorem lastWriterWins_iff (peerPk : PeerId) (ops : Multiset NameOp) :
    LastWriterWins peerPk ops ↔ SignedNewestAgree ops := by
  unfold LastWriterWins SignedNewestAgree DisplayNameTable.peerDisplayName
  simp only [find?_deliverNames, Option.map_map]
  refine imp_congr_right fun _ => exists_congr fun newest => and_congr_right fun member =>
    and_congr_right fun _ => ?_
  constructor
  · intro wins op hop max
    obtain ⟨arrivals, rest, arrive, first⟩ := exists_arrivals_first hop peerPk
    have kept : (namesOf peerPk arrivals).maxOn? NameOp.signed = some op := by
      rw [first, List.maxOn?_cons]
      cases later : rest.maxOn? NameOp.signed with
      | none => rfl
      | some op' =>
        refine congrArg some (maxOn_eq_left (max op' ?_))
        rw [← arrive, first]
        exact List.mem_cons_of_mem _ (List.maxOn?_mem later)
    have stored := wins arrivals arrive
    rw [kept] at stored
    exact Option.some.inj stored
  · intro agree arrivals arrive
    have mem : ∀ {op : NameOp}, op ∈ ops ↔ op ∈ namesOf peerPk arrivals := by
      intro op
      rw [← arrive]
      exact Iff.rfl
    obtain ⟨op, kept⟩ := Option.isSome_iff_exists.1
      (List.isSome_maxOn?_of_mem (f := NameOp.signed) (mem.1 member))
    rw [kept]
    refine congrArg some (agree op (mem.2 (List.maxOn?_mem kept)) fun op' hop' => ?_)
    have newest := List.le_apply_get_maxOn?_of_mem (f := NameOp.signed) (mem.1 hop')
    simpa only [kept, Option.get_some] using newest

/-! ## Names that depend on the order -/

/-- Of two names with one timestamp the first stays, and a name from `2 ^ 63` on is not stored over
one from before. -/
theorem first_name_stays :
    ¬ LastWriterWins (Vector.replicate 32 2) {⟨"ada", 5⟩, ⟨"bea", 5⟩} ∧
      ¬ LastWriterWins (Vector.replicate 32 2) {⟨"ada", 5⟩, ⟨"bea", 9223372036854775808⟩} := by
  constructor
  · intro wins
    obtain ⟨newest, -, -, stored⟩ := wins (Multiset.cons_ne_zero)
    have ada := stored ([⟨"ada", 5⟩, ⟨"bea", 5⟩].map fun op => (Vector.replicate 32 2, op)) rfl
    have bea := stored ([⟨"bea", 5⟩, ⟨"ada", 5⟩].map fun op => (Vector.replicate 32 2, op)) (by
      rw [namesOf_map]
      exact Multiset.coe_eq_coe.2 (List.Perm.swap ..))
    exact absurd (ada.trans bea.symm) (by decide)
  · intro wins
    obtain ⟨newest, member, greatest, stored⟩ := wins (Multiset.cons_ne_zero)
    have ada := stored
      ([⟨"ada", 5⟩, ⟨"bea", 9223372036854775808⟩].map fun op => (Vector.replicate 32 2, op)) rfl
    rcases Multiset.mem_cons.1 member with rfl | other
    · exact absurd (greatest ⟨"bea", 9223372036854775808⟩ (by simp)) (by decide)
    · rw [Multiset.mem_singleton.1 other] at ada
      exact absurd ada (by decide)

end Zodia.App
