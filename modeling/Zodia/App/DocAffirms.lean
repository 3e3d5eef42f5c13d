import Zodia.App.Migration
import Zodia.Lib.Query

/-!
# Affirmations of revisions

A vote for a revision of a document is a row, and retracting it deletes the row. An affirmation
inserts and a retraction deletes whatever came before: no timestamp is compared, the events do
not even carry one, and a deleted row leaves no trace. So it is the operation delivered last
that counts, and not the latest one.

## Main definitions

* `docAffirmRev`, `docRetractAffirm`, `docHasAffirmed` — the table.
* `AffirmOp`, `handleAffirmOp` — published operations, and what a device does with one.
* `VotesConverge` — the latest operation of each voter counts.

## Main results

* `docHasAffirmed_deliver` — the operation delivered last counts.
* `votes_converge_iff` — so votes converge when the latest operation agrees with it.
-/

namespace Zodia.App

open Lib Doc Store

variable {Digest : Type} [DecidableEq Digest]

/-! ## The table -/

abbrev DocAffirms (Digest : Type) :=
  Table fun r : DocAffirmRow Digest => (r.interpKey, r.targetRev, r.voterPk)

section Table

variable (t : DocAffirms Digest) (interpKey : String) (targetRev : Digest) (voterPk : Bytes32)

/-- Record one affirmation. -/
def docAffirmRev (now : ℕ) : DocAffirms Digest :=
  t.insertOrIgnore ⟨interpKey, targetRev, voterPk, now⟩

/-- Remove the affirmation of one voter. -/
def docRetractAffirm : DocAffirms Digest := t.erase (interpKey, targetRev, voterPk)

def docHasAffirmed : Bool := (t.find? (interpKey, targetRev, voterPk)).isSome

end Table

/-! ## Operations and their delivery -/

inductive AffirmKind where
  | affirmRev
  | retractAffirm
  deriving DecidableEq

/-- A published `DocOp::AffirmRev` or `DocOp::RetractAffirm`, with its author and the timestamp
of its header. -/
structure AffirmOp (Digest : Type) where
  kind : AffirmKind
  interpKey : String
  targetRev : Digest
  voter : Bytes32
  timestamp : UInt64
  deriving DecidableEq

/-- What the operation is about, as the primary key of the table. -/
def AffirmOp.vote (op : AffirmOp Digest) : String × Digest × Bytes32 :=
  (op.interpKey, op.targetRev, op.voter)

/-- `DocAffirmed` and `DocAffirmRetracted` on a device. -/
def handleAffirmOp (t : DocAffirms Digest) (op : AffirmOp Digest) (now : ℕ) : DocAffirms Digest :=
  match op.kind with
  | .affirmRev => docAffirmRev t op.interpKey op.targetRev op.voter now
  | .retractAffirm => docRetractAffirm t op.interpKey op.targetRev op.voter

/-- A device that had no votes, after operations were delivered at these times. -/
def deliverAffirms (arrivals : List (AffirmOp Digest × ℕ)) : DocAffirms Digest :=
  arrivals.foldl (fun t a => handleAffirmOp t a.1 a.2) Table.empty

/-- The operations of a vote that were delivered, in this order. -/
def deliveredOn (arrivals : List (AffirmOp Digest × ℕ)) (vote : String × Digest × Bytes32) :
    List (AffirmOp Digest) :=
  (arrivals.map Prod.fst).filter fun op => op.vote = vote

/-- No two operations of a voter have one timestamp. -/
def DistinctTimestamps (ops : Finset (AffirmOp Digest)) : Prop :=
  ∀ a ∈ ops, ∀ b ∈ ops, a.voter = b.voter → a.timestamp = b.timestamp → a = b

/-- The latest operation of a vote. -/
def LatestOn (ops : Finset (AffirmOp Digest)) (vote : String × Digest × Bytes32)
    (op : AffirmOp Digest) : Prop :=
  op ∈ ops ∧ op.vote = vote ∧ ∀ op' ∈ ops, op'.vote = vote → op'.timestamp ≤ op.timestamp

/-- A voter is among the affirmers exactly if their latest operation is an affirmation. -/
def VotesConverge (ops : Finset (AffirmOp Digest)) (t : DocAffirms Digest) : Prop :=
  ∀ interpKey targetRev voter, docHasAffirmed t interpKey targetRev voter = true ↔
    ∃ op, LatestOn ops (interpKey, targetRev, voter) op ∧ op.kind = .affirmRev

/-- Of each vote, the operation delivered last is of the same kind as the latest one. -/
def LastAgreesWithLatest (ops : Finset (AffirmOp Digest))
    (arrivals : List (AffirmOp Digest × ℕ)) : Prop :=
  ∀ vote latest last, LatestOn ops vote latest →
    (deliveredOn arrivals vote).getLast? = some last → last.kind = latest.kind

/-! ## The operation delivered last counts -/

theorem find?_handleAffirmOp (t : DocAffirms Digest) (op : AffirmOp Digest) (now : ℕ)
    (vote : String × Digest × Bytes32) :
    ((handleAffirmOp t op now).find? vote).isSome =
      if op.vote = vote then decide (op.kind = .affirmRev) else (t.find? vote).isSome := by
  unfold handleAffirmOp
  cases op.kind with
  | affirmRev =>
    rw [docAffirmRev, Bool.eq_iff_iff, Table.find?_isSome_insertOrIgnore]
    split_ifs with same
    · simpa using .inl same
    · exact or_iff_right same
  | retractAffirm =>
    rw [docRetractAffirm, Table.find?_erase]
    split_ifs <;> first | rfl | contradiction

/-- Delivered operations decide a vote by the last of them. -/
theorem find?_foldl_handleAffirmOp (t : DocAffirms Digest) (arrivals : List (AffirmOp Digest × ℕ))
    (vote : String × Digest × Bytes32) :
    ((arrivals.foldl (fun t a => handleAffirmOp t a.1 a.2) t).find? vote).isSome =
      match (deliveredOn arrivals vote).getLast? with
      | some last => decide (last.kind = .affirmRev)
      | none => (t.find? vote).isSome := by
  induction arrivals using List.reverseRecOn with
  | nil => rfl
  | append_singleton arrivals a ih =>
    rw [List.foldl_append, List.foldl_cons, List.foldl_nil, find?_handleAffirmOp, ih]
    split_ifs with same
    · simp [deliveredOn, same]
    · simp [deliveredOn, same]

/-- A voter is among the affirmers exactly if the operation delivered last affirms. -/
theorem docHasAffirmed_deliver (arrivals : List (AffirmOp Digest × ℕ)) (interpKey : String)
    (targetRev : Digest) (voter : Bytes32) :
    docHasAffirmed (deliverAffirms arrivals) interpKey targetRev voter = true ↔
      ∃ last, (deliveredOn arrivals (interpKey, targetRev, voter)).getLast? = some last ∧
        last.kind = .affirmRev := by
  rw [docHasAffirmed, deliverAffirms, find?_foldl_handleAffirmOp]
  cases (deliveredOn arrivals (interpKey, targetRev, voter)).getLast? with
  | none => simp [Table.find?, Table.empty]
  | some last => simp

/-! ## Convergence -/

variable {ops : Finset (AffirmOp Digest)} {vote : String × Digest × Bytes32}
  {arrivals : List (AffirmOp Digest × ℕ)}

theorem exists_latestOn (h : ∃ op ∈ ops, op.vote = vote) : ∃ op, LatestOn ops vote op := by
  obtain ⟨op, hop, same⟩ := h
  obtain ⟨latest, hl, max⟩ := (ops.filter (·.vote = vote)).exists_max_image (·.timestamp.toNat)
    ⟨op, Finset.mem_filter.2 ⟨hop, same⟩⟩
  obtain ⟨hl, same'⟩ := Finset.mem_filter.1 hl
  exact ⟨latest, hl, same', fun op' hop' same => UInt64.le_iff_toNat_le.2
    (max op' (Finset.mem_filter.2 ⟨hop', same⟩))⟩

omit [DecidableEq Digest] in
theorem LatestOn.unique (distinct : DistinctTimestamps ops) {a b : AffirmOp Digest}
    (ha : LatestOn ops vote a) (hb : LatestOn ops vote b) : a = b := by
  have voters : a.voter = b.voter := congrArg (·.2.2) (ha.2.1.trans hb.2.1.symm)
  exact distinct a ha.1 b hb.1 voters
    (UInt64.le_antisymm (hb.2.2 a ha.1 ha.2.1) (ha.2.2 b hb.1 hb.2.1))

/-- A vote on which there are operations has one that was delivered last. -/
theorem exists_last (delivered : ∀ op, op ∈ arrivals.map Prod.fst ↔ op ∈ ops)
    {op : AffirmOp Digest} (hop : op ∈ ops) (same : op.vote = vote) :
    ∃ last, (deliveredOn arrivals vote).getLast? = some last := by
  have some_op : op ∈ deliveredOn arrivals vote :=
    List.mem_filter.2 ⟨(delivered op).2 hop, decide_eq_true same⟩
  exact ⟨_, List.getLast?_eq_some_getLast (List.ne_nil_of_mem some_op)⟩

/-- Operations that are delivered in some order, some of them several times, leave the votes of
the latest ones exactly if those delivered last agree with them. -/
theorem votes_converge_iff (distinct : DistinctTimestamps ops)
    (delivered : ∀ op, op ∈ arrivals.map Prod.fst ↔ op ∈ ops) :
    VotesConverge ops (deliverAffirms arrivals) ↔ LastAgreesWithLatest ops arrivals := by
  simp only [VotesConverge, docHasAffirmed_deliver]
  constructor
  · rintro converge ⟨interpKey, targetRev, voter⟩ latest last hlatest hlast
    have affirms : last.kind = .affirmRev ↔ latest.kind = .affirmRev := by
      constructor
      · intro kind
        obtain ⟨op, hop, opKind⟩ := (converge interpKey targetRev voter).1 ⟨last, hlast, kind⟩
        exact hlatest.unique distinct hop ▸ opKind
      · intro kind
        obtain ⟨op, hop, opKind⟩ := (converge interpKey targetRev voter).2 ⟨latest, hlatest, kind⟩
        exact Option.some.inj (hop.symm.trans hlast) ▸ opKind
    cases hl : last.kind <;> cases hk : latest.kind <;> simp_all
  · intro agree interpKey targetRev voter
    constructor
    · rintro ⟨last, hlast, kind⟩
      obtain ⟨hlast', same⟩ := List.mem_filter.1 (List.mem_of_getLast? hlast)
      obtain ⟨latest, hlatest⟩ := exists_latestOn
        ⟨last, (delivered last).1 hlast', of_decide_eq_true same⟩
      exact ⟨latest, hlatest, (agree _ latest last hlatest hlast) ▸ kind⟩
    · rintro ⟨latest, hlatest, kind⟩
      obtain ⟨last, hlast⟩ := exists_last delivered hlatest.1 hlatest.2.1
      exact ⟨last, hlast, (agree _ latest last hlatest hlast).trans kind⟩

/-! ## A vote and its retraction -/

/-- A vote at time 1. -/
def voteCast : AffirmOp ℕ := ⟨.affirmRev, "sun.leo", 7, keyOf 2, 1⟩

/-- Its retraction at time 2. -/
def voteRetracted : AffirmOp ℕ := ⟨.retractAffirm, "sun.leo", 7, keyOf 2, 2⟩

theorem distinct_voteRetracted : DistinctTimestamps {voteCast, voteRetracted} := by
  unfold DistinctTimestamps
  decide

/-- Delivered in order, and the retraction twice, the vote is gone. -/
theorem votes_converge_iff_inOrder :
    VotesConverge {voteCast, voteRetracted}
        (deliverAffirms [(voteCast, 10), (voteRetracted, 11), (voteRetracted, 12)]) ↔
      LastAgreesWithLatest {voteCast, voteRetracted}
        [(voteCast, 10), (voteRetracted, 11), (voteRetracted, 12)] :=
  votes_converge_iff distinct_voteRetracted (by simp)

/-- Delivered after its retraction, the vote stays. -/
theorem retracted_vote_stays :
    DistinctTimestamps {voteCast, voteRetracted} ∧
      (∀ op, op ∈ [(voteRetracted, 10), (voteCast, 11)].map Prod.fst ↔
        op ∈ ({voteCast, voteRetracted} : Finset (AffirmOp ℕ))) ∧
      ¬ VotesConverge {voteCast, voteRetracted}
        (deliverAffirms [(voteRetracted, 10), (voteCast, 11)]) := by
  refine ⟨distinct_voteRetracted, by simp [or_comm], fun converge => ?_⟩
  have stored : docHasAffirmed (deliverAffirms [(voteRetracted, 10), (voteCast, 11)]) "sun.leo" 7
      (keyOf 2) = true := by decide
  obtain ⟨op, ⟨member, -, latest⟩, kind⟩ := (converge "sun.leo" 7 (keyOf 2)).1 stored
  rcases Finset.mem_insert.1 member with rfl | retraction
  · exact absurd (latest voteRetracted (by simp) rfl) (by decide)
  · rw [Finset.mem_singleton.1 retraction] at kind
    cases kind

end Zodia.App
