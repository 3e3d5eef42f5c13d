import Zodia.App.RegisterDocs
import Zodia.Store.Feed

/-!
# Running the document migration again

The first start folds the old interpretations into documents, one key after the other, each
with several writes to the store, and sets one flag at the end. When it fails on the way, the
next start runs it from the beginning, on whatever the first run and the edits in between have
left.

A key is not looked up before its document is saved, and its ring is pushed onto, so a second
run overwrites what was edited and pushes authors twice. Affirmations are not read at all.

## Main definitions

* `LegacyRows` — what the store may answer when it is asked for the old texts.
* `migrate` — the migration, run to its end or cut short after some of its writes.
* `Restarts` — what a restartable migration promises.

## Main results

* `migrate_docs` — run to its end, it seeds the documents as `migrateInterpsToDocs` does.
* `restarts_iff` — when the migration can be run again.
-/

namespace Zodia.App

open Lib Doc Store

variable {Blob C Digest LogId Sig : Type}

/-! ## The tables -/

/-- A row of `doc_affirms`. -/
structure DocAffirmRow (Digest : Type) where
  interpKey : String
  targetRev : Digest
  voterPk : Bytes32
  affirmedAt : ℕ

/-- What the migration could write: the documents and rings, the affirmations of documents, and
whether `collab_doc_migration_v1` is set. -/
structure CollabStore (Blob Digest : Type) where
  docs : DocStore Blob Digest
  docAffirms : Table fun r : DocAffirmRow Digest => (r.interpKey, r.targetRev, r.voterPk)
  migrationDone : Bool

/-- Whether the voter has affirmed the revision. -/
def CollabStore.DocAffirmed (s : CollabStore Blob Digest) (interpKey : String)
    (targetRev : Digest) (voterPk : Bytes32) : Prop :=
  ∃ r ∈ s.docAffirms, r.interpKey = interpKey ∧ r.targetRev = targetRev ∧ r.voterPk = voterPk

/-- Whether `authored_rows_for_key` returns the row. -/
def authoredFor (interpKey : String) (r : InterpRow LogId Sig) : Bool :=
  decide (r.interpKey = interpKey) && !r.isBaseline && !r.revoked && r.parentLogId.isNone

/-- An answer of the store to `distinct_interp_keys`, and to `authored_rows_for_key` for each
key. Rows received in the same second may come in any order. -/
structure LegacyRows (t : Interpretations LogId Sig) where
  keys : List String
  nodup : keys.Nodup
  mem_keys : ∀ key, key ∈ keys ↔
    ∃ r ∈ t, r.interpKey = key ∧ r.isBaseline = false ∧ r.revoked = false
  rows : String → List (InterpRow LogId Sig)
  arranged : ∀ key, Arranged (fun a b => a.receivedAt ≤ b.receivedAt) none
    (t.rows.filter (authoredFor key)) (rows key)

namespace LegacyRows

variable {t : Interpretations LogId Sig} (answer : LegacyRows t) (baseline : String → Option String)

/-- What the migration sees of a key. -/
def legacyKey (key : String) : LegacyKey :=
  ⟨key, baseline key, (answer.rows key).filterMap fun r =>
    r.authorPk.map fun author => (r.body, author, r.receivedAt)⟩

def legacyKeys : List LegacyKey := answer.keys.map (answer.legacyKey baseline)

theorem nodup_legacyKeys : ((answer.legacyKeys baseline).map (·.interpKey)).Nodup := by
  have same : (answer.legacyKeys baseline).map (·.interpKey) = answer.keys := by
    simp [legacyKeys, legacyKey, Function.comp_def]
  rw [same]
  exact answer.nodup

end LegacyRows

/-! ## Writes -/

/-- A write of the migration. -/
inductive DocWrite (Blob Digest : Type) where
  | docSave (interpKey : String) (snapshot : Blob) (snapshotRev : Digest)
  | blockRingPush (interpKey : String) (block : BlockId) (entry : AuthorEntry Digest)

namespace DocWrite

def apply (now : ℕ) (st : DocStore Blob Digest) : DocWrite Blob Digest → DocStore Blob Digest
  | docSave key snapshot rev => st.docSave key snapshot rev now
  | blockRingPush key block entry => st.blockRingPush key block entry

/-- The document the write saves for the key. -/
def saves (key : String) : DocWrite Blob Digest → Option (Blob × Digest)
  | docSave key' snapshot rev => if key' = key then some (snapshot, rev) else none
  | blockRingPush _ _ _ => none

/-- The entry the write pushes onto the ring. -/
def pushes (key : String) (block : BlockId) : DocWrite Blob Digest → Option (AuthorEntry Digest)
  | docSave _ _ _ => none
  | blockRingPush key' block' entry =>
    if key' = key ∧ block' = block then some entry else none

end DocWrite

/-- The document of a key: its snapshot and its revision. -/
def document (st : DocStore Blob Digest) (key : String) : Option (Blob × Digest) :=
  (st.docs.find? key).map fun row => (row.loroSnapshot, row.snapshotRev)

section Writes

variable {now : ℕ} {st : DocStore Blob Digest}

theorem document_apply (w : DocWrite Blob Digest) (key : String) :
    document (w.apply now st) key = (w.saves key).or (document st key) := by
  cases w with
  | docSave key' snapshot rev =>
    -- a saved row keeps its key, whether it was there before or not
    simp only [DocWrite.apply, DocWrite.saves, document, DocStore.docSave, Table.find?_upsert]
    cases found : st.docs.find? key' with
    | none => split_ifs <;> rfl
    | some row =>
      have named : row.interpKey = key' := (Table.find?_eq_some.1 found).2
      simp only [named]
      split_ifs <;> rfl
  | blockRingPush key' block entry => rfl

/-- The last save of a key is its document. -/
theorem document_exec (ws : List (DocWrite Blob Digest)) (key : String) :
    document (exec (DocWrite.apply now) st ws) key =
      ((ws.filterMap (·.saves key)).getLast?).or (document st key) := by
  induction ws generalizing st with
  | nil => rfl
  | cons w ws ih =>
    rw [exec_cons, ih, document_apply, List.filterMap_cons]
    cases w.saves key with
    | none => rfl
    | some saved =>
      simp only [List.getLast?_cons]
      cases (ws.filterMap (·.saves key)).getLast? <;> rfl

theorem blockRingGet_apply (w : DocWrite Blob Digest) (key : String) (block : BlockId) :
    (w.apply now st).blockRingGet key block =
      pushAll ringSize (st.blockRingGet key block) (w.pushes key block).toList := by
  cases w with
  | docSave key' snapshot rev => rfl
  | blockRingPush key' block' entry =>
    rw [DocWrite.apply, DocStore.blockRingGet_push, DocWrite.pushes]
    split_ifs <;> rfl

/-- The entries pushed onto a ring are pushed onto it in order. -/
theorem blockRingGet_exec (ws : List (DocWrite Blob Digest)) (key : String) (block : BlockId) :
    (exec (DocWrite.apply now) st ws).blockRingGet key block =
      pushAll ringSize (st.blockRingGet key block) (ws.filterMap (·.pushes key block)) := by
  induction ws generalizing st with
  | nil => rfl
  | cons w ws ih =>
    rw [exec_cons, ih, blockRingGet_apply, List.filterMap_cons]
    cases w.pushes key block <;> rfl

end Writes

/-! ## The migration -/

section Migration

variable [DecidableEq C] (L : Loro Blob C Digest) (ids : OpIds Blob Digest) (me : Bytes32)

/-- The document the old texts of a key are folded into. -/
def migratedDoc (legacy : LegacyKey) : InterpDoc C :=
  (InterpDoc.empty me).setBody L legacy.body

/-- Its snapshot, and the revision it is saved under. -/
def migrated (legacy : LegacyKey) : Blob × Digest :=
  ((migratedDoc L me legacy).snapshot L, ((migratedDoc L me legacy).publishLocal L).rev)

/-- The ring entries of the old texts. -/
def migratedEntries (legacy : LegacyKey) : List (AuthorEntry Digest) :=
  legacy.rows.map fun row => ⟨row.2.1, ids.migrationEdit row.2.1 row.1, row.2.2, false⟩

/-- The writes for one key. -/
def keyWrites (legacy : LegacyKey) : List (DocWrite Blob Digest) :=
  if legacy.body.isEmpty then []
  else
    .docSave legacy.interpKey (migrated L me legacy).1 (migrated L me legacy).2 ::
      (migratedEntries ids legacy).map (.blockRingPush legacy.interpKey bodyBlockId)

/-- The writes for all keys. -/
def writes (legacy : List LegacyKey) : List (DocWrite Blob Digest) :=
  legacy.flatMap (keyWrites L ids me)

/-- The migration: run to its end, when the flag is set, or cut short after `k` writes. -/
def migrate (legacy : List LegacyKey) (stop : Option ℕ) (now : ℕ) (s : CollabStore Blob Digest) :
    CollabStore Blob Digest :=
  if s.migrationDone then s
  else match stop with
    | none =>
      { s with
        docs := exec (DocWrite.apply now) s.docs (writes L ids me legacy)
        migrationDone := true }
    | some k =>
      { s with docs := exec (DocWrite.apply now) s.docs ((writes L ids me legacy).take k) }

/-- The keys a run has to migrate. -/
def pending (legacy : List LegacyKey) (s : CollabStore Blob Digest) : List LegacyKey :=
  if s.migrationDone then [] else legacy.filter fun key => !key.body.isEmpty

/-! ### What the writes amount to -/

variable {L ids me}

/-- Run to its end, the migration seeds the documents as `migrateInterpsToDocs` does. -/
theorem migrate_docs {legacy : List LegacyKey} {now : ℕ} {s : CollabStore Blob Digest}
    (fresh : s.migrationDone = false) :
    (migrate L ids me legacy none now s).docs =
      migrateInterpsToDocs L ids s.docs me now legacy := by
  have key : ∀ (l : LegacyKey) (st : DocStore Blob Digest),
      exec (DocWrite.apply now) st (keyWrites L ids me l) = migrateKey L ids st me now l := by
    intro l st
    rw [keyWrites, migrateKey]
    split_ifs
    · rfl
    · rw [exec_cons, migratedEntries, exec, List.map_map, List.foldl_map]
      rfl
  simp only [migrate, fresh, Bool.false_eq_true, if_false, writes, migrateInterpsToDocs]
  generalize s.docs = st
  induction legacy generalizing st with
  | nil => rfl
  | cons l legacy ih => rw [List.flatMap_cons, exec_append, key, ih, List.foldl_cons]

theorem saves_keyWrites (l : LegacyKey) (key : String) :
    (keyWrites L ids me l).filterMap (·.saves key) =
      if l.body.isEmpty = false ∧ l.interpKey = key then [migrated L me l] else [] := by
  rw [keyWrites]
  cases l.body.isEmpty with
  | true => simp
  | false => by_cases same : l.interpKey = key <;>
      simp [List.filterMap_map, DocWrite.saves, same]

theorem pushes_keyWrites (l : LegacyKey) (key : String) (block : BlockId) :
    (keyWrites L ids me l).filterMap (·.pushes key block) =
      if l.body.isEmpty = false ∧ l.interpKey = key ∧ bodyBlockId = block
      then migratedEntries ids l else [] := by
  rw [keyWrites]
  cases l.body.isEmpty with
  | true => simp
  | false => by_cases ring : l.interpKey = key ∧ bodyBlockId = block <;>
      simp [List.filterMap_map, DocWrite.pushes, ring]

/-- Of the entries of a list only one concerns its key. -/
theorem flatMap_eq_of_nodup {α β κ : Type} {f : α → List β} {key : α → κ} {l : List α} {a : α}
    (distinct : (l.map key).Nodup) (mem : a ∈ l) (others : ∀ b, key b ≠ key a → f b = []) :
    l.flatMap f = f a := by
  obtain ⟨before, after, rfl⟩ := List.append_of_mem mem
  rw [List.map_append, List.map_cons, List.nodup_middle, List.nodup_cons,
    List.mem_append] at distinct
  have none : ∀ xs : List α, key a ∉ xs.map key → xs.flatMap f = [] := fun xs absent =>
    List.flatMap_eq_nil_iff.2 fun b hb =>
      others b fun same => absent (List.mem_map.2 ⟨b, hb, same⟩)
  have absent := not_or.1 distinct.1
  rw [List.flatMap_append, List.flatMap_cons, none before absent.1, none after absent.2,
    List.nil_append, List.append_nil]

section Keys

variable {legacy : List LegacyKey} {key : String} {block : BlockId}

theorem saves_writes_of_mem (distinct : (legacy.map (·.interpKey)).Nodup) {l : LegacyKey}
    (mem : l ∈ legacy) (text : l.body.isEmpty = false) :
    (writes L ids me legacy).filterMap (·.saves l.interpKey) = [migrated L me l] := by
  rw [writes, List.filterMap_flatMap, flatMap_eq_of_nodup distinct mem fun b other => by
    rw [saves_keyWrites, if_neg fun h => other h.2]]
  rw [saves_keyWrites, if_pos ⟨text, rfl⟩]

theorem saves_writes_of_not (none : ∀ l ∈ legacy, l.body.isEmpty = false → l.interpKey ≠ key) :
    (writes L ids me legacy).filterMap (·.saves key) = [] := by
  rw [writes, List.filterMap_flatMap]
  refine List.flatMap_eq_nil_iff.2 fun l hl => ?_
  rw [saves_keyWrites, if_neg fun h => none l hl h.1 h.2]

theorem pushes_writes_of_mem (distinct : (legacy.map (·.interpKey)).Nodup) {l : LegacyKey}
    (mem : l ∈ legacy) (text : l.body.isEmpty = false) :
    (writes L ids me legacy).filterMap (·.pushes l.interpKey bodyBlockId) =
      migratedEntries ids l := by
  rw [writes, List.filterMap_flatMap, flatMap_eq_of_nodup distinct mem fun b other => by
    rw [pushes_keyWrites, if_neg fun h => other h.2.1]]
  rw [pushes_keyWrites, if_pos ⟨text, rfl, rfl⟩]

theorem pushes_writes_of_not
    (none : ∀ l ∈ legacy, l.body.isEmpty = false → l.interpKey = key → bodyBlockId ≠ block) :
    (writes L ids me legacy).filterMap (·.pushes key block) = [] := by
  rw [writes, List.filterMap_flatMap]
  refine List.flatMap_eq_nil_iff.2 fun l hl => ?_
  rw [pushes_keyWrites, if_neg fun h => none l hl h.1 h.2.1 h.2.2]

end Keys

end Migration

/-! ## Running it again -/

/-- A run that was cut short after some of its writes, what happened then on the documents, and
the clocks of the two runs. -/
structure Interruption (Blob Digest : Type) where
  start : CollabStore Blob Digest
  written : ℕ
  edits : List (DocEvent Blob Digest)
  now : ℕ
  again : ℕ

section Restarts

variable [DecidableEq C] (L : Loro Blob C Digest) (ids : OpIds Blob Digest) (me : Bytes32)
  (legacy : List LegacyKey)

namespace Interruption

variable (i : Interruption Blob Digest)

/-- What the first run would have left. -/
def uninterrupted : CollabStore Blob Digest := migrate L ids me legacy none i.now i.start

/-- What it did leave. -/
def left : CollabStore Blob Digest := migrate L ids me legacy (some i.written) i.now i.start

/-- The migration run again at once. -/
def rerun : CollabStore Blob Digest :=
  migrate L ids me legacy none i.again (i.left L ids me legacy)

/-- What there is after the edits. -/
def edited [DecidableEq Digest] : CollabStore Blob Digest :=
  { i.left L ids me legacy with
    docs := (exec (Device.step L ids me) ⟨(i.left L ids me legacy).docs, []⟩ i.edits).store }

/-- The migration run again after the edits. -/
def rerunEdited [DecidableEq Digest] : CollabStore Blob Digest :=
  migrate L ids me legacy none i.again (i.edited L ids me legacy)

end Interruption

variable {db : Db LogId Sig} (answer : LegacyRows db.interpretations)
  (baseline : String → Option String) (i : Interruption Blob Digest)

/-- What a restartable migration promises. -/
structure Restarts [DecidableEq Digest] : Prop where
  sameDocs : ∀ key,
    document (i.rerun L ids me (answer.legacyKeys baseline)).docs key =
      document (i.uninterrupted L ids me (answer.legacyKeys baseline)).docs key
  sameRings : ∀ key block,
    (i.rerun L ids me (answer.legacyKeys baseline)).docs.blockRingGet key block =
      (i.uninterrupted L ids me (answer.legacyKeys baseline)).docs.blockRingGet key block
  sameAffirms : (i.rerun L ids me (answer.legacyKeys baseline)).docAffirms =
    (i.uninterrupted L ids me (answer.legacyKeys baseline)).docAffirms
  keepsEdits : ∀ key,
    document (i.edited L ids me (answer.legacyKeys baseline)).docs key ≠
        document (i.left L ids me (answer.legacyKeys baseline)).docs key →
      document (i.rerunEdited L ids me (answer.legacyKeys baseline)).docs key =
        document (i.edited L ids me (answer.legacyKeys baseline)).docs key
  portsAffirms : ∀ l ∈ pending (answer.legacyKeys baseline) i.start,
    ∀ r ∈ answer.rows l.interpKey, ∀ a ∈ db.affirmations, a.interpLogId = r.logId →
      (i.uninterrupted L ids me (answer.legacyKeys baseline)).DocAffirmed l.interpKey
        (migrated L me l).2 a.authorPk
  ringAuthors : ∀ l ∈ pending (answer.legacyKeys baseline) i.start,
    ((i.uninterrupted L ids me (answer.legacyKeys baseline)).docs.blockRingGet l.interpKey
        bodyBlockId).map (·.author) =
      lastN ringSize (l.rows.map fun row => row.2.1)

/-- The condition under which it does. -/
structure CanRestart [DecidableEq Digest] : Prop where
  /-- The authors of the texts fill the ring, or no author has been pushed onto it before the
  second run. -/
  rings : ∀ l ∈ pending (answer.legacyKeys baseline) i.start,
    ringSize ≤ l.rows.length ∨
      i.start.docs.blockRingGet l.interpKey bodyBlockId = [] ∧
        ((writes L ids me (answer.legacyKeys baseline)).take i.written).filterMap
          (·.pushes l.interpKey bodyBlockId) = []
  /-- No document was edited, unless to just what the migration writes. -/
  edits : ∀ l ∈ pending (answer.legacyKeys baseline) i.start,
    document (i.edited L ids me (answer.legacyKeys baseline)).docs l.interpKey =
        document (i.left L ids me (answer.legacyKeys baseline)).docs l.interpKey ∨
      document (i.edited L ids me (answer.legacyKeys baseline)).docs l.interpKey =
        some (migrated L me l)
  /-- The texts were not affirmed, unless the affirmations are there already. -/
  affirms : ∀ l ∈ pending (answer.legacyKeys baseline) i.start,
    ∀ r ∈ answer.rows l.interpKey, ∀ a ∈ db.affirmations, a.interpLogId = r.logId →
      i.start.DocAffirmed l.interpKey (migrated L me l).2 a.authorPk

/-! ### The two runs -/

section Runs

variable {L ids me legacy i}

theorem mem_pending {s : CollabStore Blob Digest} (fresh : s.migrationDone = false)
    {l : LegacyKey} : l ∈ pending legacy s ↔ l ∈ legacy ∧ l.body.isEmpty = false := by
  simp [pending, fresh]

variable (fresh : i.start.migrationDone = false)
include fresh

theorem Interruption.uninterrupted_docs : (i.uninterrupted L ids me legacy).docs =
    exec (DocWrite.apply i.now) i.start.docs (writes L ids me legacy) := by
  simp [uninterrupted, migrate, fresh]

theorem Interruption.left_fresh : (i.left L ids me legacy).migrationDone = false := by
  simp [left, migrate, fresh]

theorem Interruption.left_docs : (i.left L ids me legacy).docs =
    exec (DocWrite.apply i.now) i.start.docs ((writes L ids me legacy).take i.written) := by
  simp [left, migrate, fresh]

theorem Interruption.rerun_docs : (i.rerun L ids me legacy).docs =
    exec (DocWrite.apply i.again) (i.left L ids me legacy).docs (writes L ids me legacy) := by
  simp [rerun, migrate, left_fresh fresh]

/-- A document that is saved twice is saved as it was the first time. -/
theorem rerun_document (key : String) :
    document (i.rerun L ids me legacy).docs key =
      document (i.uninterrupted L ids me legacy).docs key := by
  rw [Interruption.rerun_docs fresh, Interruption.left_docs fresh,
    Interruption.uninterrupted_docs fresh, document_exec, document_exec, document_exec]
  have start : ((writes L ids me legacy).take i.written).filterMap (·.saves key) <+:
      (writes L ids me legacy).filterMap (·.saves key) :=
    (List.take_prefix i.written _).filterMap _
  cases all : ((writes L ids me legacy).filterMap (·.saves key)).getLast? with
  | none =>
    rw [List.getLast?_eq_none_iff] at all
    rw [all, List.prefix_nil] at start
    rw [start]
    rfl
  | some saved => rfl

/-- The ring of a block that the migration does not push onto. -/
theorem rerun_ring_of_not {key : String} {block : BlockId}
    (none : (writes L ids me legacy).filterMap (·.pushes key block) = []) :
    (i.rerun L ids me legacy).docs.blockRingGet key block =
      (i.uninterrupted L ids me legacy).docs.blockRingGet key block := by
  have start := (List.take_prefix i.written (writes L ids me legacy)).filterMap
    (·.pushes key block)
  rw [none, List.prefix_nil] at start
  rw [Interruption.rerun_docs fresh, Interruption.left_docs fresh,
    Interruption.uninterrupted_docs fresh, blockRingGet_exec, blockRingGet_exec,
    blockRingGet_exec, none, start]
  rfl

/-- When the ring of a migrated key is what it should be. -/
theorem rerun_ring_iff (distinct : (legacy.map (·.interpKey)).Nodup) {l : LegacyKey}
    (mem : l ∈ pending legacy i.start) :
    ((i.rerun L ids me legacy).docs.blockRingGet l.interpKey bodyBlockId =
          (i.uninterrupted L ids me legacy).docs.blockRingGet l.interpKey bodyBlockId ∧
        ((i.uninterrupted L ids me legacy).docs.blockRingGet l.interpKey bodyBlockId).map
            (·.author) =
          lastN ringSize (l.rows.map fun row => row.2.1)) ↔
      ringSize ≤ l.rows.length ∨
        i.start.docs.blockRingGet l.interpKey bodyBlockId = [] ∧
          ((writes L ids me legacy).take i.written).filterMap
            (·.pushes l.interpKey bodyBlockId) = [] := by
  obtain ⟨here, text⟩ := (mem_pending fresh).1 mem
  have entries : (writes L ids me legacy).filterMap (·.pushes l.interpKey bodyBlockId) =
      migratedEntries ids l := pushes_writes_of_mem distinct here text
  have start := (List.take_prefix i.written (writes L ids me legacy)).filterMap
    (·.pushes l.interpKey bodyBlockId)
  have authors : (migratedEntries ids l).map (·.author) = l.rows.map fun row => row.2.1 := by
    simp [migratedEntries]
  have count : (migratedEntries ids l).length = l.rows.length := List.length_map ..
  rw [entries] at start
  rw [Interruption.rerun_docs fresh, Interruption.left_docs fresh,
    Interruption.uninterrupted_docs fresh, blockRingGet_exec, blockRingGet_exec,
    blockRingGet_exec, entries, ← authors, ← count]
  exact pushAll_again_iff (by decide) start _

section Edited

variable [DecidableEq Digest]

theorem Interruption.rerunEdited_docs : (i.rerunEdited L ids me legacy).docs =
    exec (DocWrite.apply i.again) (i.edited L ids me legacy).docs (writes L ids me legacy) := by
  simp [rerunEdited, edited, migrate, left_fresh fresh]

/-- The second run overwrites what was edited of the keys it migrates. -/
theorem rerunEdited_document (distinct : (legacy.map (·.interpKey)).Nodup) {l : LegacyKey}
    (mem : l ∈ pending legacy i.start) :
    document (i.rerunEdited L ids me legacy).docs l.interpKey = some (migrated L me l) := by
  obtain ⟨here, text⟩ := (mem_pending fresh).1 mem
  rw [Interruption.rerunEdited_docs fresh, document_exec,
    saves_writes_of_mem distinct here text]
  rfl

/-- It keeps every other document. -/
theorem rerunEdited_document_of_not {key : String}
    (other : ∀ l ∈ pending legacy i.start, l.interpKey ≠ key) :
    document (i.rerunEdited L ids me legacy).docs key =
      document (i.edited L ids me legacy).docs key := by
  have none : (writes L ids me legacy).filterMap (·.saves key) = [] :=
    saves_writes_of_not fun l hl text => other l ((mem_pending fresh).2 ⟨hl, text⟩)
  rw [Interruption.rerunEdited_docs fresh, document_exec, none]
  rfl

end Edited

end Runs

/-! ### When it restarts -/

variable {answer baseline i} [DecidableEq Digest]

/-- Once the flag is set there is nothing left to do. -/
theorem restarts_of_done (done : i.start.migrationDone = true) :
    Restarts L ids me answer baseline i := by
  have none : pending (answer.legacyKeys baseline) i.start = [] := by simp [pending, done]
  constructor
  case portsAffirms => simp [none]
  case ringAuthors => simp [none]
  all_goals simp [Interruption.rerun, Interruption.uninterrupted, Interruption.left,
    Interruption.rerunEdited, Interruption.edited, migrate, done]

section Fresh

variable {L ids me} (fresh : i.start.migrationDone = false)
include fresh

omit [DecidableEq Digest] in
/-- No run writes an affirmation. -/
theorem uninterrupted_docAffirms {legacy : List LegacyKey} :
    (i.uninterrupted L ids me legacy).docAffirms = i.start.docAffirms := by
  simp [Interruption.uninterrupted, migrate, fresh]

theorem Restarts.canRestart (h : Restarts L ids me answer baseline i) :
    CanRestart L ids me answer baseline i := by
  have distinct := answer.nodup_legacyKeys baseline
  refine ⟨fun l hl => ?_, fun l hl => ?_, fun l hl r hr a ha target => ?_⟩
  · exact (rerun_ring_iff fresh distinct hl).1 ⟨h.sameRings _ _, h.ringAuthors l hl⟩
  · by_cases kept : document (i.edited L ids me (answer.legacyKeys baseline)).docs l.interpKey =
        document (i.left L ids me (answer.legacyKeys baseline)).docs l.interpKey
    · exact .inl kept
    · exact .inr ((h.keepsEdits _ kept).symm.trans (rerunEdited_document fresh distinct hl))
  · have ported := h.portsAffirms l hl r hr a ha target
    rw [CollabStore.DocAffirmed, uninterrupted_docAffirms fresh] at ported
    exact ported

theorem CanRestart.restarts (h : CanRestart L ids me answer baseline i) :
    Restarts L ids me answer baseline i := by
  have distinct := answer.nodup_legacyKeys baseline
  have ring := fun l hl => (rerun_ring_iff fresh distinct hl).2 (h.rings l hl)
  constructor
  case sameDocs => exact rerun_document fresh
  case sameRings =>
    intro key block
    by_cases pushed : ∃ l ∈ pending (answer.legacyKeys baseline) i.start,
        l.interpKey = key ∧ bodyBlockId = block
    · obtain ⟨l, hl, rfl, rfl⟩ := pushed
      exact (ring l hl).1
    · refine rerun_ring_of_not fresh (pushes_writes_of_not fun l hl text same body => ?_)
      exact pushed ⟨l, (mem_pending fresh).2 ⟨hl, text⟩, same, body⟩
  case sameAffirms =>
    simp [Interruption.rerun, Interruption.left, Interruption.uninterrupted, migrate, fresh]
  case keepsEdits =>
    intro key changed
    by_cases saved : ∃ l ∈ pending (answer.legacyKeys baseline) i.start, l.interpKey = key
    · obtain ⟨l, hl, rfl⟩ := saved
      rw [rerunEdited_document fresh distinct hl, (h.edits l hl).resolve_left changed]
    · exact rerunEdited_document_of_not fresh fun l hl same => saved ⟨l, hl, same⟩
  case portsAffirms =>
    intro l hl r hr a ha target
    rw [CollabStore.DocAffirmed, uninterrupted_docAffirms fresh]
    exact h.affirms l hl r hr a ha target
  case ringAuthors => exact fun l hl => (ring l hl).2

end Fresh

/-- **The migration can be run again exactly when the rings it pushes onto are filled or were
empty, no document was edited in between, and no text it folds was affirmed.** -/
theorem restarts_iff : Restarts L ids me answer baseline i ↔
    CanRestart L ids me answer baseline i := by
  cases done : i.start.migrationDone with
  | true =>
    have none : pending (answer.legacyKeys baseline) i.start = [] := by simp [pending, done]
    refine ⟨fun _ => ?_, fun _ => restarts_of_done L ids me done⟩
    constructor <;> simp [none]
  | false => exact ⟨Restarts.canRestart done, CanRestart.restarts done⟩

end Restarts

/-! ## One old text -/

/-- A text of 2 that 3 has affirmed. -/
def warmDb : Db ℕ Unit where
  interpretations :=
    ⟨[⟨1, "sun.leo", "planet-sign", "warm", some (keyOf 2), none, none, 10, false, false⟩],
      by decide⟩
  affirmations := ⟨[⟨5, 1, keyOf 3, 20⟩], by decide⟩
  feedRead := Table.empty

def warmRows : LegacyRows warmDb.interpretations where
  keys := ["sun.leo"]
  nodup := List.nodup_singleton _
  mem_keys key := by
    simp only [List.mem_singleton, ← Table.mem_rows, warmDb, exists_eq_left, and_true]
    exact eq_comm
  rows key := warmDb.interpretations.rows.filter (authoredFor key)
  arranged key := ⟨_, List.Perm.refl _, (List.pairwise_singleton _ _).filter _, rfl⟩

/-- The first start fails after the document is saved and its author pushed, and the user
then edits the document. -/
def halfway : Interruption (OpLog String) RegisterDigest :=
  ⟨⟨DocStore.empty, Table.empty, false⟩, 2, [.publishDocEdit "sun.leo" "cold" false none 50], 40,
    60⟩

/-- The author is pushed twice, the edit is gone, and the affirmation is nowhere. -/
theorem halfway_cannot_restart :
    let legacy := warmRows.legacyKeys fun _ => none
    (((halfway.uninterrupted registerUnion registerIds (keyOf 1) legacy).docs.blockRingGet
          "sun.leo" bodyBlockId).map (·.author) = [keyOf 2] ∧
      ((halfway.rerun registerUnion registerIds (keyOf 1) legacy).docs.blockRingGet
          "sun.leo" bodyBlockId).map (·.author) = [keyOf 2, keyOf 2]) ∧
    ((document (halfway.edited registerUnion registerIds (keyOf 1) legacy).docs
          "sun.leo").map (registerText ·.1) = some "cold" ∧
      (document (halfway.rerunEdited registerUnion registerIds (keyOf 1) legacy).docs
          "sun.leo").map (registerText ·.1) = some "warm") ∧
    (halfway.uninterrupted registerUnion registerIds (keyOf 1) legacy).docAffirms.rows = [] ∧
    ¬ Restarts registerUnion registerIds (keyOf 1) warmRows (fun _ => none) halfway := by
  refine ⟨⟨by decide, by decide⟩, ⟨by decide, by decide⟩, rfl, fun h => ?_⟩
  have same := h.sameRings "sun.leo" bodyBlockId
  exact absurd (congrArg List.length same) (by decide)

end Zodia.App
