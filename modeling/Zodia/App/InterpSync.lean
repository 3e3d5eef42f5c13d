import Zodia.Lib.Traverse
import Zodia.Store.Feed

/-!
# The Tier-1 exchange of interpretations

Two connected peers send each other the signed interpretations they have for the other's chart.
What came with an operation of a log, so also what was shared with a circle, has no signature of
its own, and it must not leave the device this way. Only the nullable column `author_sig` keeps
the two apart.

## Main definitions

* `CommunityEntries` — what `community_for_keys` may return, decoded.
* `InterpShare` — what the exchange may send.
* `EnteredBy`, `OnlyFromLog` — the operations that brought a row into the store.
* `Vouched` — a signature for this key and body was verified or supplied.
-/

namespace Zodia.App

open Lib Store

variable {Digest Sig Secret VerifyingKey : Type*}

/-! ## Queries -/

structure CommunityEntry (Sig : Type*) where
  interpKey : String
  body : String
  authorPk : Bytes32
  authorSig : Sig
  deriving DecidableEq

/-- Decode the columns of a row. A missing key or signature decodes to no bytes, and copying those
into the array is a panic. -/
def communityEntry (r : InterpRow Digest Sig) : Option (CommunityEntry Sig) :=
  match r.authorPk, r.authorSig with
  | some authorPk, some authorSig => some ⟨r.interpKey, r.body, authorPk, authorSig⟩
  | _, _ => none

theorem communityEntry_eq_some {r : InterpRow Digest Sig} {e : CommunityEntry Sig} :
    communityEntry r = some e ↔ r.interpKey = e.interpKey ∧ r.body = e.body ∧
      r.authorPk = some e.authorPk ∧ r.authorSig = some e.authorSig := by
  obtain ⟨interpKey, body, authorPk, authorSig⟩ := e
  unfold communityEntry
  cases r.authorPk <;> cases r.authorSig <;> simp

/-- `LIMIT` reads the number as a signed one, and a negative limit is none. -/
def sqlLimit (limit : UInt64) : Option ℕ := if limit.toInt64 < 0 then none else some limit.toNat

section Queries

variable [DecidableEq Digest]

/-- The rows `community_for_keys` may read. -/
def CommunityRows (db : Db Digest Sig) (keySigs : List String) (limit : UInt64)
    (rows : List (InterpRow Digest Sig)) : Prop :=
  Arranged (fun r r' => db.affirmationCount r'.logId ≤ db.affirmationCount r.logId)
    (sqlLimit limit)
    (db.interpretations.rows.filter fun r =>
      !r.isBaseline && r.authorSig.isSome && !r.revoked && decide (r.interpKey ∈ keySigs)) rows

/-- What `community_for_keys` may return. -/
def CommunityEntries (db : Db Digest Sig) (keySigs : List String) (limit : UInt64)
    (out : List (CommunityEntry Sig)) : Prop :=
  if keySigs = [] then out = []
  else ∃ rows, CommunityRows db keySigs limit rows ∧ rows.mapM communityEntry = some out

/-- What the ephemeris says about charts: the keys of the aspects of one and between two. -/
structure AspectKeys (Chart : Type*) where
  natal : Chart → List String
  synastry : Chart → Chart → List String

def AspectKeys.keySigs {Chart : Type*} (A : AspectKeys Chart) (theirChart ourChart : Option Chart) :
    List String :=
  match theirChart with
  | none => []
  | some theirs => A.natal theirs ++ (match ourChart with
    | none => []
    | some ours => A.synastry ours theirs)

/-- What `collect_entries_for_stargazer` may hand to the exchange; a failing query sends nothing. -/
inductive InterpShare {Chart : Type*} (A : AspectKeys Chart) (db : Db Digest Sig)
    (theirChart ourChart : Option Chart) : List (CommunityEntry Sig) → Prop
  | failed : InterpShare A db theirChart ourChart []
  | read {entries : List (CommunityEntry Sig)}
    (h : CommunityEntries db (A.keySigs theirChart ourChart) 100 entries) :
    InterpShare A db theirChart ourChart entries

end Queries

/-! ## Where a row came from -/

/-- The operations that write what a log carried. -/
def FromLog : StoreOp Digest Sig → Prop
  | .insertFromOp .. => True
  | .insertResponseFromOp .. => True
  | _ => False

/-- The operation verified the signature of the entry, or was given it by the author. -/
inductive Signs (hash : Hash Digest) (S : SignatureScheme Secret VerifyingKey Digest Sig) :
    StoreOp Digest Sig → CommunityEntry Sig → Prop
  | supplied (interpKey body : String) (authorPk : Bytes32) (authorSig : Sig) (now : ℕ) :
    Signs hash S (.insertSigned interpKey body authorPk authorSig now)
      ⟨interpKey, body, authorPk, authorSig⟩
  | verified (interpKey body : String) (authorPk : Bytes32) (authorSig : Sig) (now : ℕ)
    (accepted : S.accepts authorPk (deriveLogId hash interpKey body) authorSig = true) :
    Signs hash S (.insertReceived interpKey body authorPk authorSig now)
      ⟨interpKey, body, authorPk, authorSig⟩

variable [DecidableEq Digest] (hash : Hash Digest) (asBytes : Digest → Bytes)
  (S : SignatureScheme Secret VerifyingKey Digest Sig)

/-- In the run `ops` from an empty store, the operation `op` brought a row named `logId` in. -/
def EnteredBy (ops : List (StoreOp Digest Sig)) (logId : Digest) (op : StoreOp Digest Sig) : Prop :=
  ∃ before after, ops = before ++ op :: after ∧
    (exec (Db.step hash asBytes S) Db.empty before).interpretations.Free logId ∧
    ¬ (exec (Db.step hash asBytes S) Db.empty (before ++ [op])).interpretations.Free logId

/-- The row only ever entered with an operation of a log. -/
def OnlyFromLog (ops : List (StoreOp Digest Sig)) (logId : Digest) : Prop :=
  ∀ op, EnteredBy hash asBytes S ops logId op → FromLog op

/-- The entry is a row that entered with its signature. -/
def Vouched (ops : List (StoreOp Digest Sig)) (e : CommunityEntry Sig) : Prop :=
  ∃ op, EnteredBy hash asBytes S ops (deriveLogId hash e.interpKey e.body) op ∧ Signs hash S op e

variable {hash asBytes S} {ops : List (StoreOp Digest Sig)} {db : Db Digest Sig}

omit [DecidableEq Digest] in
theorem Signs.not_fromLog {op : StoreOp Digest Sig} {e : CommunityEntry Sig}
    (h : Signs hash S op e) : ¬ FromLog op := by
  cases h <;> exact id

/-- What is vouched for did not only come with a log. -/
theorem Vouched.not_onlyFromLog {e : CommunityEntry Sig} (h : Vouched hash asBytes S ops e) :
    ¬ OnlyFromLog hash asBytes S ops (deriveLogId hash e.interpKey e.body) := by
  obtain ⟨op, entered, signs⟩ := h
  exact fun only => signs.not_fromLog (only op entered)

theorem EnteredBy.append {logId : Digest} {op : StoreOp Digest Sig}
    (h : EnteredBy hash asBytes S ops logId op) (more : List (StoreOp Digest Sig)) :
    EnteredBy hash asBytes S (ops ++ more) logId op := by
  obtain ⟨before, after, rfl, free, taken⟩ := h
  exact ⟨before, after ++ more, by simp, free, taken⟩

/-! ## One operation -/

/-- The two rows are one, up to the mark of a revoke. -/
structure SameText (r r' : InterpRow Digest Sig) : Prop where
  interpKey : r'.interpKey = r.interpKey
  body : r'.body = r.body
  authorPk : r'.authorPk = r.authorPk
  authorSig : r'.authorSig = r.authorSig

omit [DecidableEq Digest] in
theorem SameText.communityEntry {r r' : InterpRow Digest Sig} (h : SameText r r') :
    communityEntry r' = communityEntry r := by
  unfold App.communityEntry
  rw [h.interpKey, h.body, h.authorPk, h.authorSig]

/-- A signed row after an operation was there before, or the operation signs for it. -/
theorem mem_step {op : StoreOp Digest Sig} {r : InterpRow Digest Sig}
    (h : r ∈ (db.step hash asBytes S op).interpretations) (signed : r.authorSig.isSome) :
    (∃ r₀ ∈ db.interpretations, SameText r₀ r) ∨
      db.interpretations.Free r.logId ∧ ∃ e, communityEntry r = some e ∧ Signs hash S op e := by
  have old : ∀ {r}, r ∈ db.interpretations → ∃ r₀ ∈ db.interpretations, SameText r₀ r :=
    fun h => ⟨_, h, rfl, rfl, rfl, rfl⟩
  cases op with
  | insertInterpretation interpKey body authorPk isBaseline now =>
    rcases Table.mem_insertOrIgnore.1 h with stored | ⟨rfl, -⟩
    · exact .inl (old stored)
    · cases signed
  | insertSigned interpKey body authorPk authorSig now =>
    rcases Table.mem_insertOrIgnore.1 h with stored | ⟨rfl, free⟩
    · exact .inl (old stored)
    · exact .inr ⟨free, _, rfl, .supplied interpKey body authorPk authorSig now⟩
  | insertFromOp interpKey body authorPk now =>
    rcases Table.mem_insertOrIgnore.1 h with stored | ⟨rfl, -⟩
    · exact .inl (old stored)
    · cases signed
  | insertReceived interpKey body authorPk authorSig now =>
    simp only [Db.step, insertReceived] at h
    by_cases accepted : S.accepts authorPk (deriveLogId hash interpKey body) authorSig = true
    · rw [if_pos accepted] at h
      rcases Table.mem_insertOrIgnore.1 h with stored | ⟨rfl, free⟩
      · exact .inl (old stored)
      · exact .inr ⟨free, _, rfl, .verified interpKey body authorPk authorSig now accepted⟩
    · rw [if_neg accepted] at h
      exact .inl (old h)
  | insertResponseFromOp parentLogId body authorPk now =>
    rcases Table.mem_insertOrIgnore.1 h with stored | ⟨rfl, -⟩
    · exact .inl (old stored)
    · cases signed
  | revokeInterp logId author =>
    obtain ⟨r₀, stored, rfl⟩ := mem_revokeInterp.1 h
    refine .inl ⟨r₀, stored, ?_⟩
    rw [InterpRow.revoke_eq]
    exact ⟨rfl, rfl, rfl, rfl⟩
  | scrubBaseline => exact .inl (old (Table.mem_filter.1 h).1)
  | affirm => exact .inl (old h)
  | markEventRead => exact .inl (old h)
  | markEventUnread => exact .inl (old h)
  | bulkMarkRead => exact .inl (old h)

/-! ## Runs -/

/-- Every signed row of a run decodes to an entry that is vouched for. -/
theorem vouched_of_mem (ops : List (StoreOp Digest Sig)) {r : InterpRow Digest Sig}
    (h : r ∈ (exec (Db.step hash asBytes S) Db.empty ops).interpretations)
    (signed : r.authorSig.isSome) :
    ∃ e, communityEntry r = some e ∧ Vouched hash asBytes S ops e := by
  induction ops using List.reverseRecOn generalizing r with
  | nil => exact absurd h (Table.not_mem_empty r)
  | append_singleton ops op ih =>
    have named : r.Named hash := ((Db.named_empty hash).exec (ops ++ [op])) r h
    have after := h
    simp only [exec_append, exec_cons, exec_nil] at h
    rcases mem_step h signed with ⟨r₀, stored, same⟩ | ⟨free, e, decoded, signs⟩
    · obtain ⟨e, decoded, op', entered, signs⟩ := ih stored (same.authorSig ▸ signed)
      exact ⟨e, same.communityEntry.trans decoded, op', entered.append [op], signs⟩
    · obtain ⟨interpKey, body, -, -⟩ := communityEntry_eq_some.1 decoded
      have name : r.logId = deriveLogId hash e.interpKey e.body := by
        rw [← interpKey, ← body]
        exact named
      refine ⟨e, decoded, op, ⟨ops, [], rfl, name ▸ free, fun freeAfter => ?_⟩, signs⟩
      exact freeAfter r after name

/-- Every row the query reads is vouched for. -/
theorem CommunityRows.vouched {keySigs : List String} {limit : UInt64}
    {rows : List (InterpRow Digest Sig)}
    (h : CommunityRows (exec (Db.step hash asBytes S) Db.empty ops) keySigs limit rows) :
    ∀ r ∈ rows, ∃ e, communityEntry r = some e ∧ Vouched hash asBytes S ops e := by
  intro r hr
  obtain ⟨stored, kept⟩ := List.mem_filter.1 (h.subset hr)
  simp only [Bool.and_eq_true] at kept
  exact vouched_of_mem ops stored kept.1.1.2

/-- The query does not meet a missing column, and what it returns is vouched for. -/
theorem CommunityRows.decode {keySigs : List String} {limit : UInt64}
    {rows : List (InterpRow Digest Sig)}
    (h : CommunityRows (exec (Db.step hash asBytes S) Db.empty ops) keySigs limit rows) :
    ∃ out, rows.mapM communityEntry = some out ∧ ∀ e ∈ out, Vouched hash asBytes S ops e := by
  obtain ⟨out, decoded⟩ := exists_forall₂ h.vouched
  refine ⟨out, mapM_eq_some_iff.2 (decoded.imp fun _ _ => And.left), ?_⟩
  have known : List.Forall₂ (fun e r => Vouched hash asBytes S ops e ∧ communityEntry r = some e)
      out rows := List.Forall₂.flip (decoded.imp fun _ _ => And.symm)
  exact ((List.forall₂_and_left _ _).1 known).1

theorem CommunityEntries.vouched {keySigs : List String} {limit : UInt64}
    {out : List (CommunityEntry Sig)}
    (h : CommunityEntries (exec (Db.step hash asBytes S) Db.empty ops) keySigs limit out) :
    ∀ e ∈ out, Vouched hash asBytes S ops e := by
  unfold CommunityEntries at h
  split_ifs at h with empty
  · subst h
    exact fun e he => absurd he List.not_mem_nil
  · obtain ⟨rows, read, decoded⟩ := h
    obtain ⟨out', decoded', known⟩ := read.decode
    obtain rfl : out = out' := Option.some.inj (decoded.symm.trans decoded')
    exact known

theorem InterpShare.vouched {Chart : Type*} {A : AspectKeys Chart}
    {theirChart ourChart : Option Chart} {entries : List (CommunityEntry Sig)}
    (h : InterpShare A (exec (Db.step hash asBytes S) Db.empty ops) theirChart ourChart entries) :
    ∀ e ∈ entries, Vouched hash asBytes S ops e := by
  cases h with
  | failed => exact fun e he => absurd he List.not_mem_nil
  | read h => exact h.vouched

/-- Whatever the store was asked to do, every entry that `community_for_keys` returns, and so
every entry that a Tier-1 exchange sends, entered with a signature for its key and body that was
verified or supplied, and none is a row that only ever entered with an operation of a log. -/
theorem log_content_not_shared {Chart : Type*} (A : AspectKeys Chart) (hash : Hash Digest)
    (asBytes : Digest → Bytes) (S : SignatureScheme Secret VerifyingKey Digest Sig)
    (ops : List (StoreOp Digest Sig)) (out : List (CommunityEntry Sig))
    (returned :
      (∃ keySigs limit,
        CommunityEntries (exec (Db.step hash asBytes S) Db.empty ops) keySigs limit out) ∨
      ∃ theirChart ourChart,
        InterpShare A (exec (Db.step hash asBytes S) Db.empty ops) theirChart ourChart out) :
    ∀ e ∈ out, Vouched hash asBytes S ops e ∧
      ¬ OnlyFromLog hash asBytes S ops (deriveLogId hash e.interpKey e.body) := by
  intro e he
  have vouched : Vouched hash asBytes S ops e := by
    rcases returned with ⟨keySigs, limit, h⟩ | ⟨theirChart, ourChart, h⟩
    · exact h.vouched e he
    · exact h.vouched e he
  exact ⟨vouched, vouched.not_onlyFromLog⟩

/-! ### A circle text and a signed one -/

/-- A circle text comes with a log, and once more signed; another text comes signed. -/
private def circleAndSigned : List (StoreOp Bytes (UInt8 × Bytes)) :=
  [.insertFromOp "natal:sun_trine_moon" "ours" (Vector.replicate 32 1) 1,
    .insertReceived "natal:sun_trine_moon" "ours" (Vector.replicate 32 7)
      (7, deriveLogId id "natal:sun_trine_moon" "ours") 2,
    .insertReceived "natal:sun_trine_moon" "calm" (Vector.replicate 32 7)
      (7, deriveLogId id "natal:sun_trine_moon" "calm") 3]

private def calmEntry : CommunityEntry (UInt8 × Bytes) :=
  ⟨"natal:sun_trine_moon", "calm", Vector.replicate 32 7,
    (7, deriveLogId id "natal:sun_trine_moon" "calm")⟩

/-- The exchange sends the other text alone. -/
theorem log_content_not_shared_calm :
    Vouched id id symbolicSignatures circleAndSigned calmEntry ∧
      ¬ OnlyFromLog id id symbolicSignatures circleAndSigned
        (deriveLogId id calmEntry.interpKey calmEntry.body) := by
  let A : AspectKeys Unit := ⟨fun _ => ["natal:sun_trine_moon"], fun _ _ => []⟩
  let db := exec (Db.step id id symbolicSignatures) Db.empty circleAndSigned
  let row : InterpRow Bytes (UInt8 × Bytes) :=
    receivedRow id "natal:sun_trine_moon" "calm" (Vector.replicate 32 7)
      (7, deriveLogId id "natal:sun_trine_moon" "calm") 3
  have matching : (db.interpretations.rows.filter fun r =>
      !r.isBaseline && r.authorSig.isSome && !r.revoked &&
        decide (r.interpKey ∈ ["natal:sun_trine_moon"])) = [row] := by decide
  have read : CommunityRows db ["natal:sun_trine_moon"] 100 [row] := by
    unfold CommunityRows
    rw [matching]
    exact ⟨[row], .rfl, List.pairwise_singleton _ _, rfl⟩
  have sent : InterpShare A db (some ()) none [calmEntry] :=
    .read ((if_neg (by decide)).mpr ⟨[row], read, rfl⟩)
  exact log_content_not_shared A id id symbolicSignatures circleAndSigned [calmEntry]
    (.inr ⟨some (), none, sent⟩) calmEntry (List.mem_singleton.2 rfl)

end Zodia.App
