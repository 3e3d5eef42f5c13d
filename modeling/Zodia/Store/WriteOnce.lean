import Zodia.Store.Feed

/-!
# Rows are written once

Five statements insert interpretations, and each is an `INSERT OR IGNORE`: it can name a row
that exists, but not write to it. The one `UPDATE` sets the mark of a revoke, for the author
that the row stores. The texts that came with the program are deleted at a start.

## Main definitions

* `InterpRow.content` — a row without its mark.
* `WriteOnce` — what a run leaves of the rows it started with.

## Main results

* `step_interpretations` — the four things an operation can do to the table.
* `rows_write_once` — rows are written once in every run.
-/

namespace Zodia.Store

open Lib

variable {Digest Sig Secret VerifyingKey : Type*} [DecidableEq Digest]

/-- A row without its mark. -/
def InterpRow.content (r : InterpRow Digest Sig) : InterpRow Digest Sig :=
  { r with revoked := false }

theorem InterpRow.content_revoke {r : InterpRow Digest Sig} {logId : Digest} {author : Bytes32} :
    (r.revoke logId author).content = r.content := by
  rw [InterpRow.revoke_eq]
  rfl

variable (hash : Hash Digest) (asBytes : Digest → Bytes)
  (S : SignatureScheme Secret VerifyingKey Digest Sig) (db : Db Digest Sig)

/-- What the operations `ops` leave of the rows of `db`. A row is still there with all it said,
unless it was a text of the program and a start has deleted it, and a marked row is marked. A
row with a mark had it, or an operation of `ops` named the row and its author and found it
without. -/
structure WriteOnce (ops : List (StoreOp Digest Sig)) : Prop where
  kept : ∀ r ∈ db.interpretations, r.isBaseline = true ∧ .scrubBaseline ∈ ops ∨
    ∃ r' ∈ (exec (Db.step hash asBytes S) db ops).interpretations,
      r'.content = r.content ∧ (r.revoked = true → r'.revoked = true)
  revoked : ∀ r' ∈ (exec (Db.step hash asBytes S) db ops).interpretations, r'.revoked = true →
    (∃ r ∈ db.interpretations, r.content = r'.content ∧ r.revoked = true) ∨
    ∃ earlier later author, ops = earlier ++ .revokeInterp r'.logId author :: later ∧
      r'.authorPk = some author ∧
      ∃ r ∈ (exec (Db.step hash asBytes S) db earlier).interpretations,
        r.content = r'.content ∧ r.revoked = false

/-! ## One operation -/

/-- An operation leaves the table alone, offers it a row without a mark, marks the rows that a
revoke names, or deletes the texts of the program. -/
theorem step_interpretations (op : StoreOp Digest Sig) :
    (db.step hash asBytes S op).interpretations = db.interpretations ∨
    (∃ r : InterpRow Digest Sig, r.revoked = false ∧
      (db.step hash asBytes S op).interpretations = db.interpretations.insertOrIgnore r) ∨
    (∃ logId author, op = .revokeInterp logId author ∧
      (db.step hash asBytes S op).interpretations =
        revokeInterp db.interpretations logId author) ∨
    op = .scrubBaseline ∧
      (db.step hash asBytes S op).interpretations = scrubBaseline db.interpretations := by
  cases op with
  | insertInterpretation => exact .inr (.inl ⟨_, rfl, rfl⟩)
  | insertSigned => exact .inr (.inl ⟨_, rfl, rfl⟩)
  | insertFromOp => exact .inr (.inl ⟨_, rfl, rfl⟩)
  | insertReceived interpKey body authorPk authorSig now =>
    simp only [Db.step, insertReceived]
    by_cases accepted : S.accepts authorPk (deriveLogId hash interpKey body) authorSig = true
    · rw [if_pos accepted]
      exact .inr (.inl ⟨_, rfl, rfl⟩)
    · rw [if_neg accepted]
      exact .inl rfl
  | insertResponseFromOp => exact .inr (.inl ⟨_, rfl, rfl⟩)
  | affirm => exact .inl rfl
  | revokeInterp logId author => exact .inr (.inr (.inl ⟨logId, author, rfl, rfl⟩))
  | scrubBaseline => exact .inr (.inr (.inr ⟨rfl, rfl⟩))
  | markEventRead => exact .inl rfl
  | markEventUnread => exact .inl rfl
  | bulkMarkRead => exact .inl rfl

/-- A row outlives an operation, unless it is a text of the program that is deleted. -/
theorem kept_step (op : StoreOp Digest Sig) {r : InterpRow Digest Sig}
    (hr : r ∈ db.interpretations) :
    r.isBaseline = true ∧ op = .scrubBaseline ∨
      ∃ r' ∈ (db.step hash asBytes S op).interpretations,
        r'.content = r.content ∧ (r.revoked = true → r'.revoked = true) := by
  rcases step_interpretations hash asBytes S db op with
    same | ⟨new, -, inserted⟩ | ⟨logId, author, -, marks⟩ | ⟨scrubs, deletes⟩
  · exact .inr ⟨r, by rwa [same], rfl, id⟩
  · exact .inr ⟨r, by rw [inserted]; exact Table.mem_insertOrIgnore.2 (.inl hr), rfl, id⟩
  · refine .inr ⟨r.revoke logId author, ?_, InterpRow.content_revoke, fun marked => ?_⟩
    · rw [marks]
      exact mem_revokeInterp.2 ⟨r, hr, rfl⟩
    · exact InterpRow.revoked_revoke_iff.2 (.inl marked)
  · cases bundled : r.isBaseline with
    | true => exact .inl ⟨rfl, scrubs⟩
    | false =>
      refine .inr ⟨r, ?_, rfl, id⟩
      rw [deletes]
      exact Table.mem_filter.2 ⟨hr, by simp [bundled]⟩

variable {hash asBytes S db}

/-- A row that has a mark after an operation had it before, or the operation is the revoke of
its author. -/
theorem revoked_step (op : StoreOp Digest Sig) {r' : InterpRow Digest Sig}
    (hr' : r' ∈ (db.step hash asBytes S op).interpretations) (marked : r'.revoked = true) :
    (∃ r ∈ db.interpretations, r.content = r'.content ∧ r.revoked = true) ∨
      ∃ author, op = .revokeInterp r'.logId author ∧ r'.authorPk = some author ∧
        ∃ r ∈ db.interpretations, r.content = r'.content ∧ r.revoked = false := by
  rcases step_interpretations hash asBytes S db op with
    same | ⟨new, unmarked, inserted⟩ | ⟨logId, author, revokes, marks⟩ | ⟨-, deletes⟩
  · exact .inl ⟨r', by rwa [same] at hr', rfl, marked⟩
  · rw [inserted] at hr'
    rcases Table.mem_insertOrIgnore.1 hr' with old | ⟨rfl, -⟩
    · exact .inl ⟨r', old, rfl, marked⟩
    · rw [unmarked] at marked
      contradiction
  · rw [marks] at hr'
    obtain ⟨r, hr, rfl⟩ := mem_revokeInterp.1 hr'
    cases before : r.revoked with
    | true => exact .inl ⟨r, hr, InterpRow.content_revoke.symm, before⟩
    | false =>
      obtain had | ⟨named, by_author⟩ := InterpRow.revoked_revoke_iff.1 marked
      · rw [before] at had
        contradiction
      · have content_kept : (r.revoke logId author).content = r.content := InterpRow.content_revoke
        have author_kept := congrArg InterpRow.authorPk content_kept
        refine .inr ⟨author, ?_, ?_, r, hr, InterpRow.content_revoke.symm, before⟩
        · rw [revokes, InterpRow.logId_revoke, named]
        · exact author_kept.trans by_author
  · rw [deletes] at hr'
    exact .inl ⟨r', (Table.mem_filter.1 hr').1, rfl, marked⟩

/-! ## Runs -/

/-- What a run leaves after its first operation, and what that leaves, is what it leaves. -/
theorem WriteOnce.cons {op : StoreOp Digest Sig} {ops : List (StoreOp Digest Sig)}
    (h : WriteOnce hash asBytes S (db.step hash asBytes S op) ops) :
    WriteOnce hash asBytes S db (op :: ops) where
  kept r hr := by
    rcases kept_step hash asBytes S db op hr with
      ⟨bundled, rfl⟩ | ⟨r₁, hr₁, content₁, marked₁⟩
    · exact .inl ⟨bundled, List.mem_cons_self⟩
    · have bundled_kept := congrArg InterpRow.isBaseline content₁
      rcases h.kept r₁ hr₁ with ⟨bundled, later⟩ | ⟨r', hr', content', marked'⟩
      · exact .inl ⟨bundled_kept.symm.trans bundled, List.mem_cons_of_mem _ later⟩
      · exact .inr ⟨r', hr', content'.trans content₁, fun marked => marked' (marked₁ marked)⟩
  revoked r' hr' marked := by
    rcases h.revoked r' hr' marked with ⟨r₁, hr₁, content₁, marked₁⟩ |
      ⟨earlier, later, author, rfl, stored, r, hr, content, unmarked⟩
    · have author_kept := congrArg InterpRow.authorPk content₁
      have name_kept := congrArg InterpRow.logId content₁
      rcases revoked_step op hr₁ marked₁ with ⟨r, hr, content, before⟩ |
        ⟨author, rfl, stored, r, hr, content, unmarked⟩
      · exact .inl ⟨r, hr, content.trans content₁, before⟩
      · refine .inr ⟨[], ops, author, ?_, author_kept.symm.trans stored, r, hr,
          content.trans content₁, unmarked⟩
        rw [List.nil_append, ← show r₁.logId = r'.logId from name_kept]
    · exact .inr ⟨op :: earlier, later, author, rfl, stored, r, hr, content, unmarked⟩

/-- Rows are written once: in no run does a row change what it says, lose its mark, or get one
from anything but a revoke by the author it stores. -/
theorem rows_write_once (hash : Hash Digest) (asBytes : Digest → Bytes)
    (S : SignatureScheme Secret VerifyingKey Digest Sig) (db : Db Digest Sig)
    (ops : List (StoreOp Digest Sig)) : WriteOnce hash asBytes S db ops := by
  induction ops generalizing db with
  | nil => exact ⟨fun r hr => .inr ⟨r, hr, rfl, id⟩, fun r hr marked => .inl ⟨r, hr, rfl, marked⟩⟩
  | cons op ops ih => exact (ih (db.step hash asBytes S op)).cons

end Zodia.Store
