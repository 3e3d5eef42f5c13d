import Mathlib.Data.List.GetD
import Zodia.Lib.Run
import Zodia.Store.Docs

/-!
# Edits and vetoes of documents

How a device handles its own edits, the edits and vetoes it receives and its own vetoes.
An own edit goes through `publishDocEdit`, which names it by a hash of its own and leaves
the author rings alone; an edit of somebody else goes through `applyDocEdit`, which names
it by the hash of its header. Here the store and the library work: no call of the store fails,
and the migration of the first start runs to its end. What a failure leaves is in
`Zodia.App.StoreFailures`.

Header timestamps are in microseconds; the clock a handler reads is in seconds.

## Main definitions

* `applyDocEdit`, `applyDocVeto`, `publishDocEdit` — the handlers.
* `migrateInterpsToDocs` — how the first start seeds the documents.
* `Device.step` — one event on a device.
-/

namespace Zodia.App

open Lib Doc Store

variable {Blob C Digest : Type}

/-- What the hash of an operation's header depends on. -/
structure OpHeader where
  verifyingKey : Bytes32
  seqNum : ℕ
  timestamp : ℕ
  payloadHash : Bytes32
  deriving DecidableEq

/-- The hashes that name edits. -/
structure OpIds (Blob Digest : Type) where
  header : OpHeader → Digest
  /-- Of `"local_edit"`, the device's key, the base revision and the update. -/
  localEdit : Bytes32 → Digest → Blob → Digest
  /-- Of `"migration-edit"`, the author and the text. -/
  migrationEdit : Bytes32 → String → Digest

/-- No two inputs collide. -/
structure OpIds.Ideal (ids : OpIds Blob Digest) : Prop where
  header_inj : ∀ h h', ids.header h = ids.header h' → h = h'
  header_ne_local : ∀ h me rev update, ids.header h ≠ ids.localEdit me rev update
  header_ne_migration : ∀ h author text, ids.header h ≠ ids.migrationEdit author text
  migration_ne_local : ∀ author text me rev update,
    ids.migrationEdit author text ≠ ids.localEdit me rev update

/-- A received `DocOp::Edit`. -/
structure DocEdited (Blob : Type) where
  header : OpHeader
  interpKey : String
  crdtUpdate : Blob
  affectedBlocks : List BlockId
  aiGenerated : Bool
  deriving DecidableEq

/-- A received `DocOp::Veto`. -/
structure DocVetoProposed (Digest : Type) where
  header : OpHeader
  interpKey : String
  targetEditOpId : Digest
  deriving DecidableEq

/-! ## Block lists -/

def encodeBlocks (blocks : List BlockId) : Bytes := blocks.flatMap (·.toList)

/-- The whole chunks of 16 bytes. -/
def decodeBlocks (bytes : Bytes) : List BlockId :=
  (List.range (bytes.length / 16)).map fun i =>
    Vector.ofFn fun j : Fin 16 => bytes.getD (16 * i + j) 0

theorem decodeBlocks_append (block : BlockId) (bytes : Bytes) :
    decodeBlocks (block.toList ++ bytes) = block :: decodeBlocks bytes := by
  have length : block.toList.length = 16 := Vector.length_toList
  have chunks : (block.toList ++ bytes).length / 16 = bytes.length / 16 + 1 := by
    simp only [List.length_append, length]
    omega
  rw [decodeBlocks, chunks, List.range_succ_eq_map, List.map_cons, List.map_map]
  apply congrArg₂ List.cons
  · apply Vector.ext
    intro j hj
    rw [Vector.getElem_ofFn, List.getD_append _ _ _ _ (by omega)]
    simp [hj]
  · refine List.map_congr_left fun i _ => Vector.ext fun j hj => ?_
    rw [Function.comp_apply, Vector.getElem_ofFn, Vector.getElem_ofFn,
      List.getD_append_right _ _ _ _ (by dsimp only; omega)]
    apply congrArg fun k => bytes.getD k 0
    dsimp only
    omega

theorem decodeBlocks_encodeBlocks (blocks : List BlockId) :
    decodeBlocks (encodeBlocks blocks) = blocks := by
  induction blocks with
  | nil => rfl
  | cons block blocks ih => rw [encodeBlocks, List.flatMap_cons, decodeBlocks_append,
      ← encodeBlocks, ih]

/-! ## The handlers -/

section Handlers

variable [DecidableEq C] [DecidableEq Digest] (L : Loro Blob C Digest) (ids : OpIds Blob Digest)
  (st : DocStore Blob Digest) (me : Bytes32)

/-- The stored document, or an empty one; `none` when the snapshot cannot be read. -/
def openDoc (interpKey : String) : Option (InterpDoc C) :=
  match st.docLoad interpKey with
  | some bytes => InterpDoc.fromSnapshot L me bytes
  | none => some (InterpDoc.empty me)

/-- Apply an edit and push its editor onto the ring of each affected block, unless the
editor is this device's own user. Nothing happens when the document cannot be read. -/
def applyDocEdit (interpKey : String) (update : Blob) (editorPk : Bytes32) (editOpId : Digest)
    (editTs : ℕ) (affectedBlocks : List BlockId) (aiGenerated : Bool) (now : ℕ) :
    DocStore Blob Digest :=
  match (openDoc L st me interpKey).bind fun doc => doc.applyRemote L update with
  | none => st
  | some (doc, _) =>
    let saved := st.docSaveWithHistory interpKey (doc.snapshot L) (doc.currentRev L)
      (st.docLoad interpKey) editOpId editTs editorPk (encodeBlocks affectedBlocks) now
    if editorPk = me then saved
    else
      affectedBlocks.foldl (fun st block =>
        st.blockRingPush interpKey block ⟨editorPk, editOpId, now, aiGenerated⟩) saved

/-- Apply an edit when only the first pushes are done: the handler stops at one that fails, and
the document was saved before. -/
def applyDocEditCut (pushed : ℕ) (interpKey : String) (update : Blob) (editorPk : Bytes32)
    (editOpId : Digest) (editTs : ℕ) (affectedBlocks : List BlockId) (aiGenerated : Bool)
    (now : ℕ) : DocStore Blob Digest :=
  match (openDoc L st me interpKey).bind fun doc => doc.applyRemote L update with
  | none => st
  | some (doc, _) =>
    let saved := st.docSaveWithHistory interpKey (doc.snapshot L) (doc.currentRev L)
      (st.docLoad interpKey) editOpId editTs editorPk (encodeBlocks affectedBlocks) now
    if editorPk = me then saved
    else
      (affectedBlocks.take pushed).foldl (fun st block =>
        st.blockRingPush interpKey block ⟨editorPk, editOpId, now, aiGenerated⟩) saved

omit [DecidableEq C] [DecidableEq Digest] in
/-- With all pushes done it is the whole handler. -/
theorem applyDocEditCut_length (interpKey : String) (update : Blob) (editorPk : Bytes32)
    (editOpId : Digest) (editTs : ℕ) (affectedBlocks : List BlockId) (aiGenerated : Bool)
    (now : ℕ) :
    applyDocEditCut L st me affectedBlocks.length interpKey update editorPk editOpId editTs
        affectedBlocks aiGenerated now =
      applyDocEdit L st me interpKey update editorPk editOpId editTs affectedBlocks aiGenerated
        now := by
  rw [applyDocEditCut, List.take_length]
  rfl

/-- The ring of a block as the veto check sees it. -/
def vetoRing (interpKey : String) (block : BlockId) : Doc.Ring Digest :=
  Doc.Ring.fromEntries ((st.blockRingGet interpKey block).map fun e =>
    ⟨e.author, e.editOpId, e.editedAt⟩)

/-- Check the authority of a veto and roll the newest edit back; `none` when the veto is
not honoured. -/
def applyDocVeto (targetEditOpId : Digest) (revoker : Bytes32) (interpKey : String) (nowTs : ℕ) :
    Option (DocStore Blob Digest) := do
  let info ← st.docLoadMeta interpKey
  guard (info.lastEditOpId = some targetEditOpId)
  let editTs ← info.lastEditTs
  let _editAuthor ← info.lastEditAuthor
  let blocks := decodeBlocks (info.lastEditBlocks.getD [])
  guard (blocks ≠ [])
  guard (blocks.any fun block =>
    vetoAuthorised (vetoRing st interpKey block) revoker targetEditOpId editTs nowTs)
  let prior ← info.priorSnapshot
  let restored ← InterpDoc.fromSnapshot L revoker prior
  st.docRollback interpKey (restored.currentRev L) blocks nowTs

/-- The document a local edit starts from: a snapshot that cannot be read counts as none. -/
def openLocal (interpKey : String) : InterpDoc C :=
  (openDoc L st me interpKey).getD (InterpDoc.empty me)

/-- The document after a local edit. -/
def editLocal (interpKey newBody : String) : InterpDoc C :=
  (openLocal L st me interpKey).setBody L newBody

/-- The update a local edit publishes: all operations of the document. -/
def localUpdate (interpKey newBody : String) : Edit Blob Digest :=
  (editLocal L st me interpKey newBody).publishLocal L

/-- The id a device gives its own edit. -/
def localEditId (interpKey newBody : String) : Digest :=
  ids.localEdit me ((openLocal L st me interpKey).currentRev L)
    (localUpdate L st me interpKey newBody).updateBytes

/-- Apply a local edit. -/
def publishDocEdit (interpKey newBody : String) (now : ℕ) : DocStore Blob Digest :=
  let edit := localUpdate L st me interpKey newBody
  st.docSaveWithHistory interpKey ((editLocal L st me interpKey newBody).snapshot L) edit.rev
    (st.docLoad interpKey) (localEditId L ids st me interpKey newBody) now me
    (encodeBlocks edit.affectedBlocks) now

/-! ## The first start -/

/-- What the old interpretations table holds for a key: the bundled text, and the written
texts with their authors and times. -/
structure LegacyKey where
  interpKey : String
  baseline : Option String
  rows : List (String × Bytes32 × ℕ)

/-- The bundled text and the written ones as paragraphs. -/
def LegacyKey.body (legacy : LegacyKey) : String :=
  legacy.rows.foldl (fun body row => (if body.isEmpty then body else body ++ "\n\n") ++ row.1)
    (legacy.baseline.getD "")

/-- Seed the document of a key, and its ring with the authors of the texts. -/
def migrateKey (now : ℕ) (legacy : LegacyKey) : DocStore Blob Digest :=
  if legacy.body.isEmpty then st
  else
    let doc := (InterpDoc.empty me).setBody L legacy.body
    let edit := doc.publishLocal L
    legacy.rows.foldl (fun st row =>
        st.blockRingPush legacy.interpKey bodyBlockId
          ⟨row.2.1, ids.migrationEdit row.2.1 row.1, row.2.2, false⟩)
      (st.docSave legacy.interpKey (doc.snapshot L) edit.rev now)

def migrateInterpsToDocs (now : ℕ) (keys : List LegacyKey) : DocStore Blob Digest :=
  keys.foldl (fun st legacy => migrateKey L ids st me now legacy) st

end Handlers

/-! ## Devices -/

/-- The store of a device, and the updates it has sent out. -/
structure Device (Blob Digest : Type) where
  store : DocStore Blob Digest
  published : List (DocEdited Blob)

/-- What can happen on a device. `now` is the clock the handler reads, and `header` the
header under which the client publishes, if there is a client. -/
inductive DocEvent (Blob Digest : Type) where
  | publishDocEdit (interpKey newBody : String) (aiGenerated : Bool) (header : Option OpHeader)
      (now : ℕ)
  | docEdited (op : DocEdited Blob) (now : ℕ)
  | docVetoProposed (op : DocVetoProposed Digest) (now : ℕ)
  | proposeDocVeto (interpKey : String) (targetEditOpId : Digest) (header : Option OpHeader)
      (now : ℕ)
  | restart

namespace Device

variable [DecidableEq C] [DecidableEq Digest] (L : Loro Blob C Digest) (ids : OpIds Blob Digest)
  (me : Bytes32)

/-- The operation that a local edit becomes for the others. -/
def publishes (d : Device Blob Digest) (interpKey newBody : String) (aiGenerated : Bool)
    (header : OpHeader) : DocEdited Blob :=
  let edit := localUpdate L d.store me interpKey newBody
  ⟨header, interpKey, edit.updateBytes, edit.affectedBlocks, aiGenerated⟩

/-- One event. A veto that is not honoured changes nothing, nor does a restart: the migration was
done at the first start. -/
def step (d : Device Blob Digest) : DocEvent Blob Digest → Device Blob Digest
  | .publishDocEdit interpKey newBody aiGenerated header now =>
    { store := App.publishDocEdit L ids d.store me interpKey newBody now
      published := match header with
        | some header => d.publishes L me interpKey newBody aiGenerated header :: d.published
        | none => d.published }
  | .docEdited op now =>
    { d with
      store := applyDocEdit L d.store me op.interpKey op.crdtUpdate op.header.verifyingKey
        (ids.header op.header) op.header.timestamp op.affectedBlocks op.aiGenerated now }
  | .docVetoProposed op now =>
    { d with
      store := (applyDocVeto L d.store op.targetEditOpId op.header.verifyingKey op.interpKey
        now).getD d.store }
  | .proposeDocVeto interpKey target _ now =>
    { d with store := (applyDocVeto L d.store target me interpKey now).getD d.store }
  | .restart => d

/-- A device after its first start, which ran the migration to its end. -/
def firstStart (now : ℕ) (keys : List LegacyKey) : Device Blob Digest :=
  ⟨migrateInterpsToDocs L ids DocStore.empty me now keys, []⟩

end Device

end Zodia.App
