import Zodia.Store.Feed

/-!
# Revoked interpretations

A revoke marks the row of an interpretation, and each query has a filter of its own for the
mark. Two queries have none: the newest community texts, which are the signed ones, and the
responses to an interpretation. A bundled text that is scrubbed takes its mark with it.

## Main definitions

* `Surfaces` — a query may return the row, or an event made from it.
* `Hidden` — the row is revoked, and of the kind that every query filters.

## Main results

* `revoked_stays_hidden_iff` — a revoked row never comes up again exactly if it is of that kind.
* `revoked_response_surfaces` — a response that was revoked.
-/

namespace Zodia.Store

open Lib

variable {Digest Sig Secret VerifyingKey : Type*} [DecidableEq Digest]

/-- The event is the interpretation itself, or an affirmation of it. -/
def FeedRow.DerivedFrom (logId : Digest) (e : FeedRow Digest) : Prop :=
  match e.kind with
  | .authored | .response => e.eventId = logId
  | .affirm => e.targetLogId = some logId

/-- Some query may return the row named `logId`, or an event derived from it. The query for
the best text returns no name, but the text under its key has only one. -/
inductive Surfaces (hash : Hash Digest) (db : Db Digest Sig) (logId : Digest) : Prop
  | topBody (interpKey body : String)
    (read : TopBody db.affirmationCount db.interpretations interpKey (some body))
    (named : deriveLogId hash interpKey body = logId)
  | allForKey (interpKey : String) (out : List (InterpRow Digest Sig))
    (read : AllForKey db.affirmationCount db.interpretations interpKey out)
    (r : InterpRow Digest Sig) (returned : r ∈ out) (named : r.logId = logId)
  | communityForKeys (keySigs : List String) (limit : ℕ) (out : List (InterpRow Digest Sig))
    (read : CommunityForKeys db.affirmationCount db.interpretations keySigs limit out)
    (r : InterpRow Digest Sig) (returned : r ∈ out) (named : r.logId = logId)
  | recentCommunityInterps (limit : ℕ) (out : List (InterpRow Digest Sig))
    (read : RecentCommunityInterps db.interpretations limit out)
    (r : InterpRow Digest Sig) (returned : r ∈ out) (named : r.logId = logId)
  | responsesFor (parentLogId : Digest) (out : List (InterpRow Digest Sig))
    (read : ResponsesFor db.interpretations parentLogId out)
    (r : InterpRow Digest Sig) (returned : r ∈ out) (named : r.logId = logId)
  | recentFeedRows (me : Bytes32) (limit : ℕ) (out : List (FeedRow Digest))
    (read : RecentFeedRows db me limit out)
    (e : FeedRow Digest) (returned : e ∈ out) (derived : e.DerivedFrom logId)

/-- The row is neither bundled nor signed nor a response. -/
structure InterpRow.Plain (r : InterpRow Digest Sig) : Prop where
  community : r.isBaseline = false
  unsigned : r.authorSig = none
  root : r.parentLogId = none

/-- The row is revoked, and every query that could return it looks at the mark. -/
def Hidden (t : Interpretations Digest Sig) (logId : Digest) : Prop :=
  ∃ r ∈ t, r.logId = logId ∧ r.revoked = true ∧ r.Plain

variable {hash : Hash Digest} {asBytes : Digest → Bytes}
  {S : SignatureScheme Secret VerifyingKey Digest Sig} {db : Db Digest Sig} {logId : Digest}

/-! ## Hidden rows -/

/-- A hidden row stays what it is. -/
theorem Hidden.effect {t t' : Interpretations Digest Sig} (h : Hidden t logId)
    (effect : InterpEffect hash t t') : Hidden t' logId := by
  obtain ⟨r, stored, named, revoked, plain⟩ := h
  cases effect with
  | unchanged => exact ⟨r, stored, named, revoked, plain⟩
  | inserted => exact ⟨r, Table.mem_insertOrIgnore.2 (.inl stored), named, revoked, plain⟩
  | revoked target author =>
    have same : r.revoke target author = r := if_neg fun h => by simp [revoked] at h
    exact ⟨r, mem_revokeInterp.2 ⟨r, stored, same⟩, named, revoked, plain⟩
  | scrubbed =>
    have kept : (!r.isBaseline) = true := by simp [plain.community]
    exact ⟨r, Table.mem_filter.2 ⟨stored, kept⟩, named, revoked, plain⟩

theorem Hidden.exec (h : Hidden db.interpretations logId) (ops : List (StoreOp Digest Sig)) :
    Hidden (exec (Db.step hash asBytes S) db ops).interpretations logId :=
  exec_keeps (fun db : Db Digest Sig => Hidden db.interpretations logId)
    (fun _ op h => h.effect (InterpEffect.of_step op)) h ops

omit [DecidableEq Digest] in
/-- The row of a name is the hidden one. -/
theorem Hidden.of_mem {t : Interpretations Digest Sig} (h : Hidden t logId)
    {r : InterpRow Digest Sig} (stored : r ∈ t) (named : r.logId = logId) :
    r.revoked = true ∧ r.Plain := by
  obtain ⟨r', stored', named', revoked, plain⟩ := h
  obtain rfl : r = r' := Table.eq_of_key stored stored' (named.trans named'.symm)
  exact ⟨revoked, plain⟩

/-- No query returns a hidden row. -/
theorem Hidden.not_surfaces (h : Hidden db.interpretations logId) (named : db.Named hash) :
    ¬ Surfaces hash db logId := by
  rintro (⟨interpKey, body, read, text⟩ | ⟨interpKey, out, read, r, returned, same⟩ |
    ⟨keySigs, limit, out, read, r, returned, same⟩ | ⟨limit, out, read, r, returned, same⟩ |
    ⟨parent, out, read, r, returned, same⟩ | ⟨me, limit, out, read, e, returned, derived⟩)
  · obtain ⟨rows, arranged, first⟩ := read
    obtain ⟨r, head, rfl⟩ := Option.map_eq_some_iff.1 first.symm
    have kept := List.mem_filter.1 (arranged.subset (List.mem_of_head? head))
    simp only [Bool.and_eq_true, decide_eq_true_eq, Bool.not_eq_true'] at kept
    obtain ⟨stored, rfl, current⟩ := kept
    have revoked := (h.of_mem stored ((named r stored).trans text)).1
    simp [revoked] at current
  · have kept := List.mem_filter.1 (read.subset returned)
    simp [(h.of_mem kept.1 same).1] at kept
  · have kept := List.mem_filter.1 (read.subset returned)
    simp [(h.of_mem kept.1 same).1] at kept
  · have kept := List.mem_filter.1 (read.subset returned)
    simp [(h.of_mem kept.1 same).2.unsigned] at kept
  · have kept := List.mem_filter.1 (read.subset returned)
    simp [(h.of_mem kept.1 same).2.root] at kept
  · rcases read.source returned with
      ⟨r, stored, -, current, rfl⟩ | ⟨a, -, i, stored, same, current, rfl⟩
    · have same : r.logId = logId := by
        unfold FeedRow.DerivedFrom InterpRow.feedRow at derived
        split_ifs at derived with reply
        · exact derived
        · exact derived
      simp [(h.of_mem stored same).1] at current
    · have target : a.interpLogId = logId := Option.some.inj derived
      simp [(h.of_mem stored (same.trans target)).1] at current

/-! ## Rows that come up -/

/-- A response comes up, revoked or not. -/
theorem surfaces_of_parent {r : InterpRow Digest Sig} (stored : r ∈ db.interpretations)
    {parent : Digest} (reply : r.parentLogId = some parent) : Surfaces hash db r.logId := by
  obtain ⟨out, read, perm⟩ := exists_arranged
    (fun r r' : InterpRow Digest Sig => r.receivedAt ≤ r'.receivedAt) (fun _ _ => le_total _ _)
    (fun _ _ _ => le_trans)
    (db.interpretations.rows.filter fun r => decide (r.parentLogId = some parent)) none
    (fun _ limited => nomatch limited)
  have returned : r ∈ out := perm.symm.subset (List.mem_filter.2 ⟨stored, by simp [reply]⟩)
  exact .responsesFor parent out read r returned rfl

/-- A signed text comes up, revoked or not. -/
theorem surfaces_of_signed {r : InterpRow Digest Sig} (stored : r ∈ db.interpretations)
    (community : r.isBaseline = false) (signed : r.authorSig.isSome) :
    Surfaces hash db r.logId := by
  obtain ⟨out, read, perm⟩ := exists_arranged
    (fun r r' : InterpRow Digest Sig => r'.receivedAt ≤ r.receivedAt) (fun _ _ => le_total _ _)
    (fun _ _ _ h h' => le_trans h' h)
    (db.interpretations.rows.filter fun r => !r.isBaseline && r.authorSig.isSome)
    (some db.interpretations.rows.length)
    (fun n limited => Option.some.inj limited ▸ List.length_filter_le _ _)
  have returned : r ∈ out :=
    perm.symm.subset (List.mem_filter.2 ⟨stored, by simp [community, signed]⟩)
  exact .recentCommunityInterps _ out read r returned rfl

/-- A current row comes up under its key. -/
theorem surfaces_of_current {r : InterpRow Digest Sig} (stored : r ∈ db.interpretations)
    (current : r.revoked = false) : Surfaces hash db r.logId := by
  obtain ⟨out, read, perm⟩ := exists_arranged (rankLe db.affirmationCount)
    (rankLe_total db.affirmationCount) (rankLe_trans db.affirmationCount)
    (db.interpretations.rows.filter fun r' => decide (r'.interpKey = r.interpKey) && !r'.revoked)
    none (fun _ limited => nomatch limited)
  have returned : r ∈ out := perm.symm.subset (List.mem_filter.2 ⟨stored, by simp [current]⟩)
  exact .allForKey r.interpKey out read r returned rfl

/-- A bundled text is scrubbed together with its mark, and can be written again. -/
theorem surfaces_of_baseline (named : db.Named hash) {r : InterpRow Digest Sig}
    (stored : r ∈ db.interpretations) (bundled : r.isBaseline = true) (author : Bytes32) :
    Surfaces hash (exec (Db.step hash asBytes S) db
      [.scrubBaseline, .insertFromOp r.interpKey r.body author 0]) r.logId := by
  let fresh : InterpRow Digest Sig := opRow hash r.interpKey r.body author 0
  have free : (scrubBaseline db.interpretations).Free fresh.logId := by
    intro r' hr' same
    obtain ⟨stored', community⟩ := Table.mem_filter.1 hr'
    obtain rfl : r' = r := Table.eq_of_key stored' stored (same.trans (named r stored).symm)
    simp [bundled] at community
  have written : fresh ∈ insertFromOp hash (scrubBaseline db.interpretations) r.interpKey r.body
      author 0 := Table.mem_insertOrIgnore.2 (.inr ⟨rfl, free⟩)
  have name : fresh.logId = r.logId := (named r stored).symm
  exact name ▸ surfaces_of_current written rfl

/-! ## Revokes -/

theorem revokeInterpFinds_iff {t : Interpretations Digest Sig}
    {author : Bytes32} : revokeInterpFinds t logId author = true ↔
      ∃ r ∈ t, r.logId = logId ∧ r.authorPk = some author ∧ r.revoked = false := by
  simp [revokeInterpFinds, and_assoc]

/-- Once a revoke has marked a row, no query ever returns it again or an event derived from
it, whatever the store does later, exactly if the row is neither bundled nor signed nor a
response. -/
theorem revoked_stays_hidden_iff (hash : Hash Digest) (asBytes : Digest → Bytes)
    (S : SignatureScheme Secret VerifyingKey Digest Sig) (ops : List (StoreOp Digest Sig))
    (logId : Digest) (author : Bytes32) :
    let db := exec (Db.step hash asBytes S) Db.empty ops
    revokeInterpFinds db.interpretations logId author →
      ((∀ later, ¬ Surfaces hash (exec (Db.step hash asBytes S)
          (db.step hash asBytes S (.revokeInterp logId author)) later) logId) ↔
        ∀ r ∈ db.interpretations, r.logId = logId → r.Plain) := by
  intro db finds
  have named : db.Named hash := (Db.named_empty hash).exec ops
  obtain ⟨r, stored, rfl, own, current⟩ := revokeInterpFinds_iff.1 finds
  let marked : InterpRow Digest Sig := { r with revoked := true }
  let after := db.step hash asBytes S (.revokeInterp r.logId author)
  have revoked : marked ∈ after.interpretations :=
    mem_revokeInterp.2 ⟨r, stored, if_pos ⟨rfl, own, current⟩⟩
  have namedAfter : after.Named hash :=
    (InterpEffect.of_step (StoreOp.revokeInterp r.logId author)).named named
  constructor
  · intro hidden r' stored' same
    obtain rfl : r' = r := Table.eq_of_key stored' stored same
    have community : r'.isBaseline = false := by
      by_contra bundled
      exact hidden _ (surfaces_of_baseline namedAfter revoked (by simpa using bundled) author)
    refine ⟨community, ?_, ?_⟩
    · by_contra signed
      have shown : Surfaces hash after marked.logId :=
        surfaces_of_signed revoked community (Option.isSome_iff_ne_none.2 signed)
      exact hidden [] shown
    · by_contra reply
      obtain ⟨parent, reply⟩ := Option.ne_none_iff_exists'.1 reply
      have shown : Surfaces hash after marked.logId := surfaces_of_parent revoked reply
      exact hidden [] shown
  · intro plain later
    have hidden : Hidden after.interpretations r.logId := by
      obtain ⟨community, unsigned, root⟩ := plain r stored rfl
      exact ⟨marked, revoked, rfl, rfl, community, unsigned, root⟩
    exact (hidden.exec later).not_surfaces (namedAfter.exec later)

/-! ## A response that is revoked -/

/-- Somebody writes a text, somebody else responds to it. -/
def calmAndIndeed : List (StoreOp Bytes (UInt8 × Bytes)) :=
  [.insertFromOp "natal:sun_trine_moon" "calm" (Vector.replicate 32 1) 1,
    .insertResponseFromOp (deriveLogId id "natal:sun_trine_moon" "calm") "indeed"
      (Vector.replicate 32 2) 2]

theorem revoked_stays_hidden_iff_indeed :
    (∀ later, ¬ Surfaces id (exec (Db.step id id symbolicSignatures)
        ((exec (Db.step id id symbolicSignatures) Db.empty calmAndIndeed).step id id
          symbolicSignatures (.revokeInterp (deriveLogId id "natal:sun_trine_moon" "indeed")
            (Vector.replicate 32 2))) later) (deriveLogId id "natal:sun_trine_moon" "indeed")) ↔
      ∀ r ∈ (exec (Db.step id id symbolicSignatures) Db.empty calmAndIndeed).interpretations,
        r.logId = deriveLogId id "natal:sun_trine_moon" "indeed" → r.Plain :=
  revoked_stays_hidden_iff id id symbolicSignatures calmAndIndeed
    (deriveLogId id "natal:sun_trine_moon" "indeed") (Vector.replicate 32 2) (by decide)

/-- The author of the response revokes it, and it is still returned with the responses. -/
theorem revoked_response_surfaces :
    let db := exec (Db.step id id symbolicSignatures) Db.empty calmAndIndeed
    let logId := deriveLogId id "natal:sun_trine_moon" "indeed"
    revokeInterpFinds db.interpretations logId (Vector.replicate 32 2) = true ∧
      Surfaces id (db.step id id symbolicSignatures
        (.revokeInterp logId (Vector.replicate 32 2))) logId := by
  intro db logId
  refine ⟨by decide, ?_⟩
  let r : InterpRow Bytes (UInt8 × Bytes) :=
    { responseRow id "natal:sun_trine_moon" "response"
        (deriveLogId id "natal:sun_trine_moon" "calm") "indeed" (Vector.replicate 32 2) 2 with
      revoked := true }
  have stored : r ∈ (db.step id id symbolicSignatures
      (.revokeInterp logId (Vector.replicate 32 2))).interpretations.rows := by decide
  have reply : r.parentLogId = some (deriveLogId id "natal:sun_trine_moon" "calm") := rfl
  exact surfaces_of_parent stored reply

end Zodia.Store
