import Zodia.App.RegisterDocs
import Zodia.App.StoreFailures

/-!
# Operation ids

A device numbers its CRDT operations from the largest counter of the snapshot it loads, and a
rollback replaces that snapshot by an older one. That alone never makes it publish two operations
under one id: an own edit is never rolled back, since its id is in no author ring, and an edit of
somebody else is rolled back to what was stored just before it, which held everything published
until then.

But an own edit is sent out even when it was not saved, and a start whose migration did not end
before writes the old texts over documents that were edited and published. In both cases the
operations that are out are no longer in the snapshot, and the next edit takes their ids.

## Main definitions

* `IdsAgree` — no two published operations share an id.
* `CollabDevice.KeepsPublished` — the events that lose nothing of what was published.
* `PublishedKept` — where the published operations of a document are.

## Main results

* `published_agree` — in a run of such events no id is used twice.
* `not_idsAgree_of_forgotten` — a document that lost a published operation reuses its id.
-/

namespace Zodia.App

open Lib Doc Store

variable {Blob C Digest : Type} {L : Loro Blob C Digest} {ids : OpIds Blob Digest} {me : Bytes32}
  {key : String} {d : Device Blob Digest} {s : DocState C Digest}

/-- Two updates for one key agree on every operation id they both hold. -/
def IdsAgree (L : Loro Blob C Digest) (published : List (DocEdited Blob)) : Prop :=
  ∀ op ∈ published, ∀ op' ∈ published, op.interpKey = op'.interpKey → ∀ u u',
    L.decode op.crdtUpdate = some u → L.decode op'.crdtUpdate = some u' →
      ∀ a ∈ u, ∀ b ∈ u', a.id = b.id → a = b

/-- An own edit that is sent was saved, and a start writes over no document of which an update is
out. -/
def CollabDevice.KeepsPublished [DecidableEq C] (L : Loro Blob C Digest) (ids : OpIds Blob Digest)
    (me : Bytes32) (d : CollabDevice Blob Digest) : CollabEvent Blob Digest → Prop
  | .publishDocEdit _ _ _ header outcome _ => header = none ∨ outcome ≠ .notSaved
  | .start legacy stop _ => ∀ op ∈ d.published,
    (startWrites L ids me legacy stop d.store).filterMap (·.saves op.interpKey) = []
  | _ => True

/-- The id is not one that a device gives its own edit. -/
def OpIds.Foreign (ids : OpIds Blob Digest) (opId : Digest) : Prop :=
  ∀ me rev update, opId ≠ ids.localEdit me rev update

/-- The version holds the operations `u`, and so does what a veto would restore. -/
structure Version.Keeps (ids : OpIds Blob Digest) (u : OpLog C) (v : Version C Digest) : Prop where
  current : u ⊆ v.current
  prior : ∀ last, v.last = some last → ids.Foreign last.opId →
    ∀ p, v.prior = some p → u ⊆ p

/-- Every published update of the document is kept, and no ring names an own edit. -/
structure PublishedKept (L : Loro Blob C Digest) (ids : OpIds Blob Digest) (key : String)
    (d : Device Blob Digest) (s : DocState C Digest) : Prop where
  represents : Represents L OneOpPerId d.store key s
  rings : ∀ block, ∀ e ∈ s.rings block, ids.Foreign e.editOpId
  published : ∀ op ∈ d.published, op.interpKey = key → ∀ u, L.decode op.crdtUpdate = some u →
    ∃ v, s.version = some v ∧ v.Keeps ids u

/-! ## What one event does -/

/-- A version that replaces `s.version` as an edit does, and what was kept is kept. -/
theorem Version.Keeps.edit {u current : OpLog C} {v : Version C Digest} (h : v.Keeps ids u)
    (grows : v.current ⊆ current) (last : LastEdit Digest) :
    (⟨current, some v.current, some last⟩ : Version C Digest).Keeps ids u where
  current := h.current.trans grows
  prior _ _ _ _ hp := Option.some.inj hp ▸ h.current

theorem Version.opened {v : Version C Digest} (hv : s.version = some v) : s.opened = v.current := by
  simp [DocState.opened, hv]

theorem keeps_applyEditCut (hL : L.KeepsIds) {pushed : ℕ} {update : Blob}
    {edit : LastEdit Digest} {aiGenerated : Bool} {now : ℕ} {u : OpLog C} {v : Version C Digest}
    (hv : s.version = some v) (h : v.Keeps ids u) :
    ∃ v', (s.applyEditCut L pushed me update edit aiGenerated now).version = some v' ∧
      v'.Keeps ids u := by
  unfold DocState.applyEditCut
  cases imported : L.importInto s.opened update with
  | none => exact ⟨v, hv, h⟩
  | some current =>
    have grows : v.current ⊆ current := by
      rw [← Version.opened hv]
      exact hL.subset_import _ _ _ imported
    exact ⟨_, by rw [hv, Option.map_some], h.edit grows edit⟩

theorem rings_applyEditCut (hids : ids.Ideal)
    (h : ∀ block, ∀ e ∈ s.rings block, ids.Foreign e.editOpId) {pushed : ℕ} {op : DocEdited Blob}
    {now : ℕ} :
    ∀ block, ∀ e ∈ (s.applyEditCut L pushed me op.crdtUpdate (op.lastEdit ids) op.aiGenerated
      now).rings block, ids.Foreign e.editOpId := by
  intro block e he
  rcases DocState.mem_rings_applyEditCut he with ⟨-, rfl⟩ | old
  · exact hids.header_ne_local op.header
  · exact h block e old

/-- An honoured veto names an edit of somebody else, and restores what was before it. -/
theorem keeps_applyVeto [DecidableEq Digest]
    (rings : ∀ block, ∀ e ∈ s.rings block, ids.Foreign e.editOpId) {target : Digest}
    {revoker : Bytes32} {now : ℕ} {u : OpLog C} {v : Version C Digest} (hv : s.version = some v)
    (h : v.Keeps ids u) :
    ∃ v', ((s.applyVeto target revoker now).getD s).version = some v' ∧ v'.Keeps ids u := by
  cases honoured : s.applyVeto target revoker now with
  | none => exact ⟨v, hv, h⟩
  | some s' =>
    obtain ⟨w, last, prior, hw, hlast, hprior, rfl, ⟨block, -, authorised⟩, rfl⟩ :=
      DocState.applyVeto_eq_some.1 honoured
    obtain rfl : v = w := Option.some.inj (hv.symm.trans hw)
    obtain ⟨e, newest, named⟩ := DocState.newest_of_authorised authorised
    have foreign : ids.Foreign last.opId := named ▸ rings block e (List.mem_of_getLast? newest)
    exact ⟨_, rfl, h.prior last hlast foreign prior hprior, fun _ none => nomatch none⟩

theorem rings_applyVeto [DecidableEq Digest]
    (rings : ∀ block, ∀ e ∈ s.rings block, ids.Foreign e.editOpId) {target : Digest}
    {revoker : Bytes32} {now : ℕ} :
    ∀ block, ∀ e ∈ ((s.applyVeto target revoker now).getD s).rings block,
      ids.Foreign e.editOpId := by
  intro block e he
  cases honoured : s.applyVeto target revoker now with
  | none =>
    rw [honoured] at he
    exact rings block e he
  | some s' =>
    obtain ⟨w, last, prior, -, -, -, -, -, rfl⟩ := DocState.applyVeto_eq_some.1 honoured
    rw [honoured] at he
    exact rings block e (Rings.mem_foldl_pop he)

theorem PublishedKept.fresh :
    PublishedKept L ids key (CollabDevice.fresh : CollabDevice Blob Digest).device
      (DocState.fresh : DocState C Digest) where
  represents := Represents.empty
  rings _ _ none := absurd none List.not_mem_nil
  published _ none := absurd none List.not_mem_nil

/-- Where everything published is kept, no id is used twice. -/
theorem idsAgree_of_kept (h : ∀ key, ∃ s : DocState C Digest, PublishedKept L ids key d s) :
    IdsAgree L d.published := by
  intro op hop op' hop' same u u' hu hu' a ha b hb
  obtain ⟨s, kept⟩ := h op.interpKey
  obtain ⟨v, hv, keeps⟩ := kept.published op hop rfl u hu
  obtain ⟨w, hw, keeps'⟩ := kept.published op' hop' same.symm u' hu'
  obtain rfl : v = w := Option.some.inj (hv.symm.trans hw)
  exact (kept.represents.valid v hv).current a (keeps.current ha) b (keeps'.current hb)

/-! ### The writes of a start -/

/-- What a write of the migration is: a document as the library exports it, or an entry for an
old text. -/
inductive DocWrite.Migrates (L : Loro Blob C Digest) (ids : OpIds Blob Digest) :
    DocWrite Blob Digest → Prop
  | docSave (interpKey : String) (doc : OpLog C) (one : OneOpPerId doc) (rev : Digest) :
    Migrates L ids (.docSave interpKey (L.exportSnapshot doc) rev)
  | blockRingPush (interpKey : String) (block : BlockId) (author : Bytes32) (text : String)
    (now : ℕ) :
    Migrates L ids
      (.blockRingPush interpKey block ⟨author, ids.migrationEdit author text, now, false⟩)

theorem migrates_of_mem_writes [DecidableEq C] {legacy : List LegacyKey}
    {w : DocWrite Blob Digest} (h : w ∈ writes L ids me legacy) : w.Migrates L ids := by
  obtain ⟨l, -, hw⟩ := List.mem_flatMap.1 h
  rw [keyWrites] at hw
  split_ifs at hw
  · exact absurd hw List.not_mem_nil
  · rcases List.mem_cons.1 hw with rfl | pushed
    · exact .docSave _ _ (oneOpPerId_commit oneOpPerId_empty _ _) _
    · obtain ⟨entry, mem, rfl⟩ := List.mem_map.1 pushed
      obtain ⟨row, -, rfl⟩ := List.mem_map.1 mem
      exact .blockRingPush ..

/-- A write keeps what was published, unless it saves a document of which an update is out. -/
theorem PublishedKept.write (hids : ids.Ideal) (h : PublishedKept L ids key d s)
    {w : DocWrite Blob Digest} (migrates : w.Migrates L ids)
    (off : ∀ op ∈ d.published, op.interpKey = key → w.saves key = none) (now : ℕ) :
    ∃ s', PublishedKept L ids key { d with store := w.apply now d.store } s' := by
  cases migrates with
  | docSave key' doc one rev =>
    by_cases same : key' = key
    · subst same
      have unpublished : ∀ op ∈ d.published, op.interpKey ≠ key' := fun op hop named => by
        simpa [DocWrite.saves] using off op hop named
      exact ⟨_, h.represents.docSave doc one rev now, h.rings,
        fun op hop named => absurd named (unpublished op hop)⟩
    · exact ⟨s, h.represents.docSave_other same _ rev now, h.rings, h.published⟩
  | blockRingPush key' block author text at_ =>
    by_cases same : key' = key
    · subst same
      refine ⟨_, h.represents.push _ [block], fun b e he => ?_, h.published⟩
      rcases Rings.mem_foldl_push he with rfl | old
      · exact hids.migration_ne_local author text
      · exact h.rings b e old
    · exact ⟨s, h.represents.push_other same _ [block], h.rings, h.published⟩

theorem PublishedKept.writes (hids : ids.Ideal) (h : PublishedKept L ids key d s)
    {ws : List (DocWrite Blob Digest)} (migrate : ∀ w ∈ ws, w.Migrates L ids)
    (off : ∀ op ∈ d.published, op.interpKey = key → ws.filterMap (·.saves key) = []) (now : ℕ) :
    ∃ s', PublishedKept L ids key { d with store := exec (DocWrite.apply now) d.store ws } s' := by
  induction ws generalizing d s with
  | nil => exact ⟨s, h⟩
  | cons w ws ih =>
    have first : ∀ op ∈ d.published, op.interpKey = key → w.saves key = none ∧
        ws.filterMap (·.saves key) = [] := by
      intro op hop named
      have none := off op hop named
      rw [List.filterMap_eq_nil_iff] at none
      exact ⟨none w List.mem_cons_self, List.filterMap_eq_nil_iff.2 fun w' hw' =>
        none w' (List.mem_cons_of_mem w hw')⟩
    obtain ⟨s', kept⟩ := h.write hids (migrate w List.mem_cons_self)
      (fun op hop named => (first op hop named).1) now
    exact ih kept (fun w' hw' => migrate w' (List.mem_cons_of_mem w hw'))
      fun op hop named => (first op hop named).2

/-! ### Every event -/

section Runs

variable [DecidableEq C] [DecidableEq Digest] {c : CollabDevice Blob Digest}

omit [DecidableEq Digest] in
/-- The update that a local edit sends out holds the operations of the document after it. -/
theorem decode_publishes (hL : L.KeepsIds) (h : Represents L OneOpPerId d.store key s)
    (me : Bytes32) (newBody : String) (aiGenerated : Bool) (header : OpHeader) :
    L.decode (d.publishes L me key newBody aiGenerated header).crdtUpdate =
      some (s.committed L me newBody) := by
  have valid : OneOpPerId (s.committed L me newBody) :=
    oneOpPerId_commit (h.opened_valid hL.restores) _ _
  rw [Device.publishes, h.localUpdate hL.restores me newBody]
  exact hL.decode_updates _ valid

/-- An own edit that is saved is kept, and so is what was published before it. -/
theorem PublishedKept.publishDocEdit (hL : L.KeepsIds) (h : PublishedKept L ids key c.device s)
    (newBody : String) (aiGenerated : Bool) (header : Option OpHeader) (now : ℕ) :
    PublishedKept L ids key
      (c.step L ids me (.publishDocEdit key newBody aiGenerated header .saved now)).device
      (s.applyLocal L ids me newBody now) := by
  have represents := h.represents.publishDocEdit hL.restores ids me newBody now
  -- the newest edit is an own one, which no veto can name
  have own : ∀ u, u ⊆ s.committed L me newBody →
      ∃ v, (s.applyLocal L ids me newBody now).version = some v ∧ v.Keeps ids u := by
    intro u hu
    refine ⟨_, rfl, hu, fun last hlast foreign => ?_⟩
    obtain rfl := Option.some.inj hlast
    exact absurd rfl (foreign me _ _)
  have old : ∀ op ∈ c.published, op.interpKey = key → ∀ u, L.decode op.crdtUpdate = some u →
      ∃ v, (s.applyLocal L ids me newBody now).version = some v ∧ v.Keeps ids u := by
    intro op hop hkey u hu
    obtain ⟨v, hv, keeps⟩ := h.published op hop hkey u hu
    refine own u (keeps.current.trans ?_)
    rw [← Version.opened hv]
    exact subset_commit _ _ _
  refine ⟨represents, h.rings, ?_⟩
  cases header with
  | none => exact old
  | some header =>
    intro op hop hkey u hu
    rcases List.mem_cons.1 hop with rfl | older
    · rw [decode_publishes hL h.represents] at hu
      obtain rfl := Option.some.inj hu
      exact own _ (Finset.Subset.refl _)
    · exact old op older hkey u hu

/-- An own edit of another document. -/
theorem PublishedKept.publishDocEdit_other (h : PublishedKept L ids key c.device s)
    {interpKey : String} (ne : interpKey ≠ key) (newBody : String) (aiGenerated : Bool)
    (header : Option OpHeader) (now : ℕ) :
    PublishedKept L ids key
      (c.step L ids me (.publishDocEdit interpKey newBody aiGenerated header .saved now)).device
      s := by
  refine ⟨h.represents.docSaveWithHistory_other ne, h.rings, ?_⟩
  cases header with
  | none => exact h.published
  | some header =>
    intro op hop hkey
    rcases List.mem_cons.1 hop with rfl | older
    · exact absurd hkey ne
    · exact h.published op older hkey

/-- A veto, whoever makes it. -/
theorem PublishedKept.applyDocVeto (hL : L.KeepsIds) (h : PublishedKept L ids key d s)
    (interpKey : String) (target : Digest) (revoker : Bytes32) (now : ℕ) :
    ∃ s', PublishedKept L ids key
      { d with store := (applyDocVeto L d.store target revoker interpKey now).getD d.store } s' := by
  by_cases same : interpKey = key
  · subst same
    refine ⟨_, (h.represents.applyDocVeto hL.restores target revoker now).2,
      rings_applyVeto h.rings, fun op hop hkey u hu => ?_⟩
    obtain ⟨v, hv, keeps⟩ := h.published op hop hkey u hu
    exact keeps_applyVeto h.rings hv keeps
  · exact ⟨s, h.represents.applyDocVeto_other same target revoker now, h.rings, h.published⟩

/-- An event that loses nothing keeps what was published. -/
theorem PublishedKept.step (hL : L.KeepsIds) (hids : ids.Ideal)
    (h : PublishedKept L ids key c.device s) {e : CollabEvent Blob Digest}
    (keeps : c.KeepsPublished L ids me e) :
    ∃ s', PublishedKept L ids key (c.step L ids me e).device s' := by
  cases e with
  | start legacy stop now =>
    obtain ⟨s', kept⟩ := h.writes hids
      (fun w hw => migrates_of_mem_writes (CollabDevice.mem_writes_of_mem_startWrites hw))
      (fun op hop named => named ▸ keeps op hop) now
    refine ⟨s', ?_⟩
    change PublishedKept L ids key ⟨(migrate L ids me legacy stop now c.store).docs, c.published⟩ s'
    rw [CollabDevice.docs_migrate]
    exact kept
  | publishDocEdit interpKey newBody aiGenerated header outcome now =>
    cases outcome with
    | notLoaded => exact ⟨s, h⟩
    | notSaved =>
      rcases keeps with rfl | saved
      · exact ⟨s, h⟩
      · exact absurd rfl saved
    | saved =>
      by_cases same : interpKey = key
      · subst same
        exact ⟨_, h.publishDocEdit hL newBody aiGenerated header now⟩
      · exact ⟨s, h.publishDocEdit_other same newBody aiGenerated header now⟩
  | docEdited op pushed now =>
    cases pushed with
    | none => exact ⟨s, h⟩
    | some pushed =>
      by_cases same : op.interpKey = key
      · subst same
        refine ⟨_, h.represents.applyDocEditCut hL.restores pushed me op.crdtUpdate
          (op.lastEdit ids) op.aiGenerated now, rings_applyEditCut hids h.rings, ?_⟩
        intro op' hop hkey u hu
        obtain ⟨v, hv, kept⟩ := h.published op' hop hkey u hu
        exact keeps_applyEditCut hL hv kept
      · exact ⟨s, h.represents.applyDocEditCut_other same pushed me op.crdtUpdate
          (op.lastEdit ids) op.aiGenerated now, h.rings, h.published⟩
  | docVetoProposed op dropped now =>
    cases dropped with
    | true => exact ⟨s, h⟩
    | false => exact h.applyDocVeto hL op.interpKey op.targetEditOpId op.header.verifyingKey now
  | proposeDocVeto interpKey target header dropped now =>
    cases dropped with
    | true => exact ⟨s, h⟩
    | false => exact h.applyDocVeto hL interpKey target me now

/-- **In every run in which each own edit that is sent was saved, and no start writes over a
document of which an update is out, no operation id is ever used twice.** -/
theorem published_agree (hL : L.KeepsIds) (hids : ids.Ideal) (me : Bytes32)
    (es : List (CollabEvent Blob Digest))
    (keeps : Along (CollabDevice.step L ids me) (CollabDevice.KeepsPublished L ids me) .fresh es) :
    Always (CollabDevice.step L ids me) (fun c => IdsAgree L c.published) .fresh es := by
  have step : ∀ (c : CollabDevice Blob Digest) (e : CollabEvent Blob Digest),
      (∀ key, ∃ s : DocState C Digest, PublishedKept L ids key c.device s) →
        c.KeepsPublished L ids me e →
        ∀ key, ∃ s : DocState C Digest, PublishedKept L ids key (c.step L ids me e).device s := by
    intro c e kept keeps key
    obtain ⟨s, h⟩ := kept key
    exact h.step hL hids keeps
  exact Always.of_invariant step (fun _ kept => idsAgree_of_kept kept)
    (fun _ => ⟨_, PublishedKept.fresh⟩) keeps

/-! ## Which events keep what was published -/

/-- Once the migration has ended, only a sent edit that was not saved loses something. -/
theorem CollabDevice.along_keepsPublished (done : c.store.migrationDone = true)
    {es : List (CollabEvent Blob Digest)}
    (saved : ∀ key body ai header now,
      .publishDocEdit key body ai (some header) .notSaved now ∉ es) :
    Along (CollabDevice.step L ids me) (CollabDevice.KeepsPublished L ids me) c es := by
  induction es generalizing c with
  | nil => trivial
  | cons e es ih =>
    have still : (c.step L ids me e).store.migrationDone = true := by
      cases e with
      | start legacy stop now =>
        have nothing : migrate L ids me legacy stop now c.store = c.store := if_pos done
        exact (congrArg CollabStore.migrationDone nothing).trans done
      | publishDocEdit key body ai header outcome now => cases outcome <;> exact done
      | docEdited op pushed now => cases pushed <;> exact done
      | docVetoProposed op dropped now => cases dropped <;> exact done
      | proposeDocVeto key target header dropped now => cases dropped <;> exact done
    refine ⟨?_, ih still fun key body ai header now mem =>
      saved key body ai header now (List.mem_cons_of_mem e mem)⟩
    cases e with
    | start legacy stop now =>
      have none : startWrites L ids me legacy stop c.store = [] := if_pos done
      exact fun op _ => congrArg (List.filterMap (·.saves op.interpKey)) none
    | publishDocEdit key body ai header outcome now =>
      cases header with
      | none => exact .inl rfl
      | some header =>
        refine .inr ?_
        rintro rfl
        exact saved key body ai header now List.mem_cons_self
    | docEdited op pushed now => trivial
    | docVetoProposed op dropped now => trivial
    | proposeDocVeto key target header dropped now => trivial

/-- When the stored document no longer holds an operation that is out, the next edit that is sent
takes its id for another one. -/
theorem not_idsAgree_of_forgotten (hL : L.KeepsIds)
    (h : Represents L OneOpPerId c.store.docs key s) {op : DocEdited Blob} (out : op ∈ c.published)
    (named : op.interpKey = key) {u : OpLog C} (hu : L.decode op.crdtUpdate = some u)
    {a : CrdtOp C} (ha : a ∈ u) {i : ℕ}
    (forgotten : a.id = ⟨peerIdFrom me, nextCounter s.opened (peerIdFrom me) + i⟩)
    {newBody : String} {content : C} (next : (L.replaceBody s.opened newBody)[i]? = some content)
    (other : a.content ≠ content) (aiGenerated : Bool) (header : OpHeader) {outcome : SaveOutcome}
    (loaded : outcome ≠ .notLoaded) (now : ℕ) :
    ¬ IdsAgree L (c.step L ids me
      (.publishDocEdit key newBody aiGenerated (some header) outcome now)).published := by
  have sent : (c.step L ids me
      (.publishDocEdit key newBody aiGenerated (some header) outcome now)).published =
        c.device.publishes L me key newBody aiGenerated header :: c.published := by
    cases outcome with
    | notLoaded => exact absurd rfl loaded
    | notSaved => rfl
    | saved => rfl
  intro agree
  rw [sent] at agree
  have mine : (⟨a.id, content⟩ : CrdtOp C) ∈ s.committed L me newBody :=
    mem_commit.2 (.inr (mem_localOps.2 ⟨i, next, forgotten⟩))
  have same := agree op (List.mem_cons_of_mem _ out) _ List.mem_cons_self named u _ hu
    (decode_publishes hL h me newBody aiGenerated header) a ha _ mine rfl
  exact other (congrArg CrdtOp.content same)

end Runs

/-! ## A run with a rollback -/

/-- One old text. -/
def warmKey : LegacyKey := ⟨"sun.leo", none, [("warm", keyOf 2, 10)]⟩

/-- An own edit of that document. -/
def ownEdit (newBody : String) (seqNum : ℕ) (outcome : SaveOutcome) (now : ℕ) :
    CollabEvent (OpLog String) RegisterDigest :=
  .publishDocEdit "sun.leo" newBody false (some (headerOf 1 seqNum now)) outcome now

/-- The device publishes, receives an edit whose push fails, and another one that is vetoed,
starts again and publishes. -/
def rollbackRun : List (CollabEvent (OpLog String) RegisterDigest) :=
  [ownEdit "proud" 0 .saved 200, .docEdited (editOf 3 "late" 250) (some 0) 250,
    .docEdited (editOf 2 "loud" 300) (some 1) 300,
    .docVetoProposed (vetoOf 2 (editOf 2 "loud" 300) 310) false 310,
    .start [warmKey] none 350, ownEdit "kind" 1 .saved 400]

theorem published_agree_rollback :
    Always (CollabDevice.step registerLoro registerIds (keyOf 1))
      (fun c => IdsAgree registerLoro c.published) .fresh
      (.start [warmKey] none 100 :: rollbackRun) :=
  published_agree registerLoro_keepsIds registerIds_ideal _ _
    ⟨fun _ none => absurd none List.not_mem_nil,
      CollabDevice.along_keepsPublished rfl (by simp [rollbackRun, ownEdit])⟩

/-! ## Ids that are used twice -/

/-- The first start fails after it has saved the document, the user edits it, and the next start
saves it again. -/
def rerunRun : List (CollabEvent (OpLog String) RegisterDigest) :=
  [.start [warmKey] (some 1) 40, ownEdit "cold" 0 .saved 50, .start [warmKey] none 60,
    ownEdit "kind" 1 .saved 70]

/-- An edit is sent that was not saved. -/
def unsavedRun : List (CollabEvent (OpLog String) RegisterDigest) :=
  [.start [] none 40, ownEdit "cold" 0 .notSaved 50, ownEdit "kind" 1 .saved 60]

theorem ids_used_twice :
    registerLoro.KeepsIds ∧ registerIds.Ideal ∧
    ¬ Always (CollabDevice.step registerLoro registerIds (keyOf 1))
      (fun c => IdsAgree registerLoro c.published) .fresh rerunRun ∧
    ¬ Always (CollabDevice.step registerLoro registerIds (keyOf 1))
      (fun c => IdsAgree registerLoro c.published) .fresh unsavedRun := by
  refine ⟨registerLoro_keepsIds, registerIds_ideal, fun always => ?_, fun always => ?_⟩
  · have same := always.last _ List.mem_cons_self _ (List.mem_cons_of_mem _ List.mem_cons_self) rfl
      _ _ rfl rfl ⟨⟨peerIdFrom (keyOf 1), 1⟩, "kind"⟩ (by decide)
      ⟨⟨peerIdFrom (keyOf 1), 1⟩, "cold"⟩ (by decide) rfl
    exact absurd same (by decide)
  · have same := always.last _ List.mem_cons_self _ (List.mem_cons_of_mem _ List.mem_cons_self) rfl
      _ _ rfl rfl ⟨⟨peerIdFrom (keyOf 1), 0⟩, "kind"⟩ (by decide)
      ⟨⟨peerIdFrom (keyOf 1), 0⟩, "cold"⟩ (by decide) rfl
    exact absurd same (by decide)

end Zodia.App
