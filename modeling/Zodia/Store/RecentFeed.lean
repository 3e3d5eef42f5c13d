import Zodia.Lib.Query
import Zodia.Store.Feed

/-!
# The newest events of the feed

The query for the newest events has a limit inside each of its three branches, and once more
outside. Each branch is ordered as the whole is, so what a branch leaves out has enough newer
events in the same branch.

## Main definitions

* `Db.feedEvents` — all events, without a limit.
* `Db.newestEvents` — the newest of them.

## Main results

* `RecentFeedRows.arranged` — the query returns the newest events of all.
* `recentFeedRows_iff` — it returns one list when no two events have one time.
-/

namespace Zodia.Store

open Lib

variable {Digest Sig : Type*} [DecidableEq Digest] (db : Db Digest Sig) (me : Bytes32)

/-- The texts, the responses and the affirmations that are not revoked. -/
def Db.feedEvents : List (FeedRow Digest) :=
  db.authoredFeed me ++ db.responseFeed me ++ db.affirmFeed me

/-- The newest `limit` events, newest first. -/
def Db.newestEvents (limit : ℕ) : List (FeedRow Digest) :=
  ((db.feedEvents me).insertionSort fun r r' => r'.ts ≤ r.ts).take limit

variable {db me}

omit [DecidableEq Digest] in
theorem newest_total (r r' : FeedRow Digest) : r'.ts ≤ r.ts ∨ r.ts ≤ r'.ts := le_total _ _

omit [DecidableEq Digest] in
theorem newest_trans (r s t : FeedRow Digest) (h : s.ts ≤ r.ts) (h' : t.ts ≤ s.ts) :
    t.ts ≤ r.ts := h'.trans h

/-- The query returns what it would return without the limits inside. -/
theorem RecentFeedRows.arranged {limit : ℕ} {out : List (FeedRow Digest)}
    (h : RecentFeedRows db me limit out) :
    Arranged (fun r r' => r'.ts ≤ r.ts) (some limit) (db.feedEvents me) out := by
  obtain ⟨authored, response, affirm, hauthored, hresponse, haffirm, hout⟩ := h
  obtain ⟨older₁, perm₁, enough₁⟩ := hauthored.exists_dropped
  obtain ⟨older₂, perm₂, enough₂⟩ := hresponse.exists_dropped
  obtain ⟨older₃, perm₃, enough₃⟩ := haffirm.exists_dropped
  have perm : (authored ++ response ++ affirm ++ (older₁ ++ older₂ ++ older₃)).Perm
      (db.feedEvents me) := by
    refine List.Perm.trans ?_ ((perm₁.append perm₂).append perm₃)
    classical
    refine List.perm_iff_count.2 fun e => ?_
    simp only [List.count_append]
    omega
  refine Arranged.of_kept newest_total newest_trans perm (fun x hx => ?_) hout
  rw [List.countP_append, List.countP_append]
  rcases List.mem_append.1 hx with hx | hx
  · rcases List.mem_append.1 hx with hx | hx
    · have := enough₁ x hx
      omega
    · have := enough₂ x hx
      omega
  · have := enough₃ x hx
    omega

theorem exists_recentFeedRows_limit (db : Db Digest Sig) (me : Bytes32) (limit : ℕ) :
    ∃ out, RecentFeedRows db me limit out := by
  have branch (rows : List (FeedRow Digest)) :
      ∃ out, Arranged (fun r r' => r'.ts ≤ r.ts) (some limit) rows out := by
    obtain ⟨sorted, perm, order⟩ := exists_sorted newest_total newest_trans rows
    exact ⟨_, sorted, perm, order, rfl⟩
  obtain ⟨authored, hauthored⟩ := branch (db.authoredFeed me)
  obtain ⟨response, hresponse⟩ := branch (db.responseFeed me)
  obtain ⟨affirm, haffirm⟩ := branch (db.affirmFeed me)
  obtain ⟨out, hout⟩ := branch (authored ++ response ++ affirm)
  exact ⟨out, authored, response, affirm, hauthored, hresponse, haffirm, hout⟩

/-- When no two events have one time, the query returns the newest events and nothing else. -/
theorem recentFeedRows_iff (db : Db Digest Sig) (me : Bytes32) (limit : ℕ)
    (out : List (FeedRow Digest)) (distinct : ((db.feedEvents me).map FeedRow.ts).Nodup) :
    RecentFeedRows db me limit out ↔ out = db.newestEvents me limit := by
  have newest : Arranged (fun r r' => r'.ts ≤ r.ts) (some limit) (db.feedEvents me)
      (db.newestEvents me limit) := by
    have : Std.Total fun r r' : FeedRow Digest => r'.ts ≤ r.ts := ⟨newest_total⟩
    have : IsTrans (FeedRow Digest) fun r r' => r'.ts ≤ r.ts := ⟨newest_trans⟩
    exact ⟨_, List.perm_insertionSort _ _, List.pairwise_insertionSort _ _, rfl⟩
  have one {a b : List (FeedRow Digest)}
      (ha : Arranged (fun r r' => r'.ts ≤ r.ts) (some limit) (db.feedEvents me) a)
      (hb : Arranged (fun r r' => r'.ts ≤ r.ts) (some limit) (db.feedEvents me) b) : a = b :=
    ha.unique (fun r hr r' hr' le ge =>
      List.inj_on_of_nodup_map distinct hr hr' (le_antisymm ge le)) hb
  constructor
  · exact fun read => one read.arranged newest
  · rintro rfl
    obtain ⟨out, read⟩ := exists_recentFeedRows_limit db me limit
    rwa [one newest read.arranged]

/-- Two texts, a response to the first and an affirmation of it, at four times. -/
def fourEvents : Db Bytes (UInt8 × Bytes) :=
  exec (Db.step id id symbolicSignatures) Db.empty
    [.insertFromOp "natal:sun_trine_moon" "calm" (Vector.replicate 32 1) 10,
      .insertResponseFromOp (utf8 "natal:sun_trine_mooncalm") "yes" (Vector.replicate 32 2) 30,
      .affirm (utf8 "natal:sun_trine_mooncalm") (Vector.replicate 32 2) 20,
      .insertFromOp "natal:sun_trine_moon" "warm" (Vector.replicate 32 2) 40]

theorem recentFeedRows_iff_fourEvents :
    RecentFeedRows fourEvents (Vector.replicate 32 1) 2
        (fourEvents.newestEvents (Vector.replicate 32 1) 2) ∧
      (fourEvents.newestEvents (Vector.replicate 32 1) 2).map FeedRow.ts = [40, 30] :=
  ⟨(recentFeedRows_iff fourEvents (Vector.replicate 32 1) 2 _ (by decide +kernel)).2 rfl,
    by decide +kernel⟩

end Zodia.Store
