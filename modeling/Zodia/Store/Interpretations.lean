import Zodia.Lib.Symbolic
import Zodia.Lib.Table

/-!
# The interpretations table

The rows of `interpretations` and the statements of `store/src/lib.rs` that read and
write them. A row is named by the hash of its key string and its body; every insert
is an `INSERT OR IGNORE` on that name, and a response takes its key string from the
row of its parent when that row is present.
-/

namespace Zodia.Store

open Lib

variable {Digest Sig : Type*}

/-! ## Names and payloads -/

/-- BLAKE3 with digests of type `Digest`. -/
abbrev Hash (Digest : Type*) := Bytes → Digest

/-- The hash of the key string followed by the body. -/
def deriveLogId (hash : Hash Digest) (interpKey body : String) : Digest :=
  hash (utf8 interpKey ++ utf8 body)

/-- The payload an author signs is the log id itself. -/
def signingPayload (hash : Hash Digest) (interpKey body : String) : Digest :=
  deriveLogId hash interpKey body

/-- The part of a key string before its first colon. -/
def kindFromKeyStr (interpKey : String) : String :=
  String.ofList (interpKey.toList.takeWhile (· ≠ ':'))

/-! ## Rows -/

structure InterpRow (Digest Sig : Type*) where
  logId : Digest
  interpKey : String
  interpKind : String
  body : String
  authorPk : Option Bytes32
  authorSig : Option Sig
  parentLogId : Option Digest
  receivedAt : ℕ
  isBaseline : Bool
  revoked : Bool
  deriving DecidableEq

/-- The table, with `log_id` as its primary key. -/
abbrev Interpretations (Digest Sig : Type*) :=
  Table (fun r : InterpRow Digest Sig => r.logId)

inductive StoreError where
  | invalidSignature
  deriving DecidableEq, Repr

variable [DecidableEq Digest]

/-! ## Writes -/

/-- The row `insert_from_op` offers. -/
def opRow (hash : Hash Digest) (interpKey body : String) (authorPk : Bytes32) (now : ℕ) :
    InterpRow Digest Sig where
  logId := deriveLogId hash interpKey body
  interpKey := interpKey
  interpKind := kindFromKeyStr interpKey
  body := body
  authorPk := some authorPk
  authorSig := none
  parentLogId := none
  receivedAt := now
  isBaseline := false
  revoked := false

/-- Persist an interpretation that a log operation carried. -/
def insertFromOp (hash : Hash Digest) (t : Interpretations Digest Sig) (interpKey body : String)
    (authorPk : Bytes32) (now : ℕ) : Interpretations Digest Sig :=
  t.insertOrIgnore (opRow hash interpKey body authorPk now)

/-- The row `insert_received` offers once the signature is verified. -/
def receivedRow (hash : Hash Digest) (interpKey body : String) (authorPk : Bytes32)
    (authorSig : Sig) (now : ℕ) : InterpRow Digest Sig :=
  { (opRow hash interpKey body authorPk now : InterpRow Digest Sig) with
    authorSig := some authorSig }

/-- Verify and insert an interpretation received from a peer. -/
def insertReceived {Secret VerifyingKey : Type*} (hash : Hash Digest)
    (S : SignatureScheme Secret VerifyingKey Digest Sig) (t : Interpretations Digest Sig)
    (interpKey body : String) (authorPk : Bytes32) (authorSig : Sig) (now : ℕ) :
    Except StoreError (Interpretations Digest Sig) :=
  let payload := deriveLogId hash interpKey body
  if S.accepts authorPk payload authorSig then
    .ok (t.insertOrIgnore (receivedRow hash interpKey body authorPk authorSig now))
  else .error .invalidSignature

/-- The key string and the kind of a response, from the row of its parent. -/
def responseKey (t : Interpretations Digest Sig) (parentLogId : Digest) : String × String :=
  match t.find? parentLogId with
  | some parent => (parent.interpKey, "response")
  | none => ("", "response_orphan")

/-- The row `insert_response_from_op` offers under the key string `interpKey`. -/
def responseRow (hash : Hash Digest) (interpKey kind : String) (parentLogId : Digest)
    (body : String) (authorPk : Bytes32) (now : ℕ) : InterpRow Digest Sig :=
  { (opRow hash interpKey body authorPk now : InterpRow Digest Sig) with
    interpKind := kind
    parentLogId := some parentLogId }

/-- Persist a response under the key of its parent, or as an orphan. -/
def insertResponseFromOp (hash : Hash Digest) (t : Interpretations Digest Sig)
    (parentLogId : Digest) (body : String) (authorPk : Bytes32) (now : ℕ) :
    Interpretations Digest Sig :=
  let (interpKey, kind) := responseKey t parentLogId
  t.insertOrIgnore (responseRow hash interpKey kind parentLogId body authorPk now)

/-- The row after a revoke naming `logId` by `expectedAuthor`. -/
def InterpRow.revoke (logId : Digest) (expectedAuthor : Bytes32) (r : InterpRow Digest Sig) :
    InterpRow Digest Sig :=
  if r.logId = logId ∧ r.authorPk = some expectedAuthor ∧ r.revoked = false then
    { r with revoked := true }
  else r

/-- A revoke writes the mark and nothing else. -/
theorem InterpRow.revoke_eq (logId : Digest) (expectedAuthor : Bytes32) (r : InterpRow Digest Sig) :
    r.revoke logId expectedAuthor =
      { r with revoked := (r.revoke logId expectedAuthor).revoked } := by
  unfold InterpRow.revoke
  split <;> rfl

theorem InterpRow.logId_revoke (logId : Digest) (expectedAuthor : Bytes32)
    (r : InterpRow Digest Sig) : (r.revoke logId expectedAuthor).logId = r.logId := by
  rw [InterpRow.revoke_eq]

/-- A row is marked by a revoke that names it and its author. -/
theorem InterpRow.revoked_revoke_iff {r : InterpRow Digest Sig} {logId : Digest}
    {author : Bytes32} : (r.revoke logId author).revoked = true ↔
      r.revoked = true ∨ r.logId = logId ∧ r.authorPk = some author := by
  unfold InterpRow.revoke
  split_ifs with named
  · simp [named]
  · cases marked : r.revoked <;> grind

/-- Mark the row as revoked when its author is the one who asks. -/
def revokeInterp (t : Interpretations Digest Sig) (logId : Digest) (expectedAuthor : Bytes32) :
    Interpretations Digest Sig :=
  t.update (InterpRow.revoke logId expectedAuthor) (InterpRow.logId_revoke logId expectedAuthor)

@[simp] theorem mem_revokeInterp {t : Interpretations Digest Sig} {logId : Digest}
    {author : Bytes32} {x : InterpRow Digest Sig} :
    x ∈ revokeInterp t logId author ↔ ∃ r ∈ t, r.revoke logId author = x := Table.mem_update

/-! ## Reads -/

/-- Community rows before baseline rows, then by falling number of affirmations. -/
def rankLe (affirmations : Digest → ℕ) (r r' : InterpRow Digest Sig) : Prop :=
  r.isBaseline < r'.isBaseline ∨
    r.isBaseline = r'.isBaseline ∧ affirmations r'.logId ≤ affirmations r.logId

omit [DecidableEq Digest] in
theorem rankLe_total (affirmations : Digest → ℕ) (r r' : InterpRow Digest Sig) :
    rankLe affirmations r r' ∨ rankLe affirmations r' r := by
  unfold rankLe
  rcases lt_trichotomy r.isBaseline r'.isBaseline with lt | same | lt
  · exact .inl (.inl lt)
  · rcases le_total (affirmations r'.logId) (affirmations r.logId) with le | le
    · exact .inl (.inr ⟨same, le⟩)
    · exact .inr (.inr ⟨same.symm, le⟩)
  · exact .inr (.inl lt)

omit [DecidableEq Digest] in
theorem rankLe_trans (affirmations : Digest → ℕ) (r s t : InterpRow Digest Sig)
    (h : rankLe affirmations r s) (h' : rankLe affirmations s t) : rankLe affirmations r t := by
  rcases h with lt | ⟨same, le⟩
  · rcases h' with lt' | ⟨same', -⟩
    · exact .inl (lt.trans lt')
    · exact .inl (same' ▸ lt)
  · rcases h' with lt' | ⟨same', le'⟩
    · exact .inl (same ▸ lt')
    · exact .inr ⟨same.trans same', le'.trans le⟩

/-- What `community_for_keys` may return. -/
def CommunityForKeys (affirmations : Digest → ℕ) (t : Interpretations Digest Sig)
    (keySigs : List String) (limit : ℕ) (out : List (InterpRow Digest Sig)) : Prop :=
  Arranged (fun r r' => affirmations r'.logId ≤ affirmations r.logId) (some limit)
    (t.rows.filter fun r =>
      !r.isBaseline && r.authorSig.isSome && !r.revoked && decide (r.interpKey ∈ keySigs)) out

/-- What `all_for_key` may return. -/
def AllForKey (affirmations : Digest → ℕ) (t : Interpretations Digest Sig) (interpKey : String)
    (out : List (InterpRow Digest Sig)) : Prop :=
  Arranged (rankLe affirmations) none
    (t.rows.filter fun r => decide (r.interpKey = interpKey) && !r.revoked) out

/-- What `top_body` may return. -/
def TopBody (affirmations : Digest → ℕ) (t : Interpretations Digest Sig) (interpKey : String)
    (out : Option String) : Prop :=
  ∃ rows, Arranged (rankLe affirmations) (some 1)
    (t.rows.filter fun r => decide (r.interpKey = interpKey) && !r.revoked) rows ∧
    out = rows.head?.map InterpRow.body

/-- What `responses_for` may return. -/
def ResponsesFor (t : Interpretations Digest Sig) (parentLogId : Digest)
    (out : List (InterpRow Digest Sig)) : Prop :=
  Arranged (fun r r' => r.receivedAt ≤ r'.receivedAt) none
    (t.rows.filter fun r => decide (r.parentLogId = some parentLogId)) out

end Zodia.Store
