import Mathlib.Data.Option.Basic
import Zodia.App.DocEdits

/-!
# One document on one device

A document apart from the tables it is kept in: its operations, those before the newest
edit, what is known of that edit, and the author rings. Each event on the device is an
event on each of its documents, and touches the one document it names.

## Main definitions

* `DocState` — the state of one document.
* `DocState.step` — what an event does to it.
* `Represents` — the tables hold this state of the document.

## Main results

* `Represents.step` — the handlers do to the tables what `DocState.step` does.
-/

namespace Zodia.App

open Lib Doc Store

variable {Blob C Digest : Type}

/-! ## The state of a document -/

/-- What is stored of the newest edit. -/
structure LastEdit (Digest : Type) where
  opId : Digest
  ts : ℕ
  author : Bytes32
  blocks : List BlockId
  deriving DecidableEq

/-- What is stored of a received edit. -/
def DocEdited.lastEdit (ids : OpIds Blob Digest) (op : DocEdited Blob) : LastEdit Digest :=
  ⟨ids.header op.header, op.header.timestamp, op.header.verifyingKey, op.affectedBlocks⟩

structure Version (C Digest : Type) where
  current : OpLog C
  prior : Option (OpLog C)
  last : Option (LastEdit Digest)

abbrev Rings (Digest : Type) := BlockId → List (AuthorEntry Digest)

structure DocState (C Digest : Type) where
  version : Option (Version C Digest)
  rings : Rings Digest

namespace Rings

def push (rings : Rings Digest) (entry : AuthorEntry Digest) (block : BlockId) : Rings Digest :=
  fun b => if block = b then lastN ringSize (rings b ++ [entry]) else rings b

def pop (rings : Rings Digest) (block : BlockId) : Rings Digest :=
  fun b => if block = b then (rings b).dropLast else rings b

variable {rings : Rings Digest} {blocks : List BlockId} {b : BlockId} {entry e : AuthorEntry Digest}

theorem mem_foldl_push (h : e ∈ blocks.foldl (·.push entry) rings b) : e = entry ∨ e ∈ rings b := by
  induction blocks generalizing rings with
  | nil => exact .inr h
  | cons block blocks ih =>
    rcases ih h with rfl | old
    · exact .inl rfl
    · simp only [push] at old
      split_ifs at old
      · rcases List.mem_append.1 ((lastN_suffix _).subset old) with older | new
        · exact .inr older
        · exact .inl (List.mem_singleton.1 new)
      · exact .inr old

/-- A ring after the pushes of one edit. -/
theorem foldl_push_eq_pushAll (blocks : List BlockId) :
    blocks.foldl (·.push entry) rings b =
      pushAll ringSize (rings b) (List.replicate (blocks.count b) entry) := by
  induction blocks generalizing rings with
  | nil => rfl
  | cons block blocks ih =>
    rw [List.foldl_cons, ih]
    by_cases same : block = b
    · subst same
      have pushed : rings.push entry block block = lastN ringSize (rings block ++ [entry]) :=
        if_pos rfl
      rw [pushed, List.count_cons_self, List.replicate_succ, pushAll_cons]
    · have kept : rings.push entry block b = rings b := if_neg same
      rw [kept, List.count_cons_of_ne same]

theorem foldl_push_of_mem (pushed : b ∈ blocks) :
    blocks.foldl (·.push entry) rings b =
      lastN ringSize (rings b ++ List.replicate (blocks.count b) entry) := by
  have some_entry : List.replicate (blocks.count b) entry ≠ [] := by
    simpa [List.count_eq_zero] using pushed
  rw [foldl_push_eq_pushAll, pushAll_of_ne_nil some_entry]

theorem foldl_push (bound : (rings b).length ≤ ringSize) (blocks : List BlockId) :
    blocks.foldl (·.push entry) rings b =
      lastN ringSize (rings b ++ List.replicate (blocks.count b) entry) := by
  by_cases pushed : b ∈ blocks
  · exact foldl_push_of_mem pushed
  · rw [foldl_push_eq_pushAll, List.count_eq_zero.2 pushed]
    simp [lastN_of_length_le bound]

theorem length_foldl_push (bound : ∀ b, (rings b).length ≤ ringSize) :
    (blocks.foldl (·.push entry) rings b).length ≤ ringSize := by
  rw [foldl_push (bound b), length_lastN]
  omega

/-- An entry that was pushed onto a ring is its newest. -/
theorem getLast?_foldl_push (bound : (rings b).length ≤ ringSize) (pushed : b ∈ blocks) :
    (blocks.foldl (·.push entry) rings b).getLast? = some entry := by
  obtain ⟨n, count⟩ := Nat.exists_eq_succ_of_ne_zero (List.count_pos_iff.2 pushed).ne'
  rw [foldl_push bound, count, List.replicate_succ', ← List.append_assoc,
    lastN_append_singleton (by decide)]
  exact List.getLast?_concat

/-- A ring after the pops of one rollback. -/
theorem foldl_pop (blocks : List BlockId) :
    blocks.foldl pop rings b = (rings b).take ((rings b).length - blocks.count b) := by
  induction blocks generalizing rings with
  | nil => simp
  | cons block blocks ih =>
    rw [List.foldl_cons, ih]
    by_cases same : block = b
    · subst same
      have popped : rings.pop block block = (rings block).dropLast := if_pos rfl
      rw [popped, List.dropLast_eq_take, List.take_take, List.length_take, List.count_cons_self]
      congr 1
      omega
    · have kept : rings.pop block b = rings b := if_neg same
      rw [kept, List.count_cons_of_ne same]

/-- What an edit pushed, its rollback pops: the newest entry from before is back. -/
theorem getLast?_foldl_pop_push (bound : (rings b).length ≤ ringSize)
    (few : blocks.count b < ringSize) (newest : (rings b).getLast? = some e) :
    (blocks.foldl pop (blocks.foldl (·.push entry) rings) b).getLast? = some e := by
  have fits : (List.replicate (blocks.count b) entry).length ≤ ringSize := by
    rw [List.length_replicate]
    exact few.le
  rw [foldl_pop, foldl_push bound, lastN_append_fits fits]
  simp only [List.length_append, List.length_replicate, Nat.add_sub_cancel, List.take_left]
  rw [getLast?_lastN (Nat.sub_pos_of_lt few), newest]

theorem length_foldl_pop (h : ∀ b, (rings b).length ≤ ringSize) :
    (blocks.foldl pop rings b).length ≤ ringSize := by
  induction blocks generalizing rings with
  | nil => exact h b
  | cons block blocks ih =>
    apply ih
    intro b
    have bound := h b
    simp only [pop]
    split_ifs
    · rw [List.length_dropLast]
      omega
    · exact bound

/-- The rollback of an edit gives a ring back exactly when the entries the edit pushed fit or
the ring was empty. -/
theorem foldl_pop_push_eq_self (affected : b ∈ blocks) :
    blocks.foldl pop (blocks.foldl (·.push entry) rings) b = rings b ↔
      rings b = [] ∨ (rings b).length + blocks.count b ≤ ringSize := by
  rw [foldl_pop, foldl_push_of_mem affected, take_lastN_append_replicate_eq_self]

theorem mem_foldl_pop (h : e ∈ blocks.foldl pop rings b) : e ∈ rings b := by
  induction blocks generalizing rings with
  | nil => exact h
  | cons block blocks ih =>
    have old := ih h
    simp only [pop] at old
    split_ifs at old
    · exact (List.dropLast_sublist _).subset old
    · exact old

end Rings

/-! ### The rings of the store -/

section Store

variable {st : DocStore Blob Digest} {key key' : String}

/-- Pushes leave the documents alone. -/
theorem docs_foldl_push (entry : AuthorEntry Digest) (blocks : List BlockId) :
    (blocks.foldl (fun st block => st.blockRingPush key block entry) st).docs = st.docs := by
  induction blocks generalizing st with
  | nil => rfl
  | cons block blocks ih => exact ih

theorem blockRingGet_foldl_push (entry : AuthorEntry Digest) (blocks : List BlockId) :
    (blocks.foldl (fun st block => st.blockRingPush key block entry) st).blockRingGet key =
      blocks.foldl (Rings.push · entry) (st.blockRingGet key) := by
  induction blocks generalizing st with
  | nil => rfl
  | cons block blocks ih =>
    have pushed : (st.blockRingPush key block entry).blockRingGet key =
        Rings.push (st.blockRingGet key) entry block := by
      funext b
      rw [DocStore.blockRingGet_push]
      simp [Rings.push]
    rw [List.foldl_cons, ih, pushed, List.foldl_cons]

theorem get_foldl_pop (t : AuthorTable Digest) (blocks : List BlockId) :
    (blocks.foldl (fun t block => t.pop key block) t).get key =
      blocks.foldl Rings.pop (t.get key) := by
  induction blocks generalizing t with
  | nil => rfl
  | cons block blocks ih =>
    have popped : (t.pop key block).get key = Rings.pop (t.get key) block := by
      funext b
      rw [AuthorTable.get_pop]
      simp [Rings.pop]
    rw [List.foldl_cons, ih, popped, List.foldl_cons]

end Store

namespace DocState

def fresh : DocState C Digest := ⟨none, fun _ => []⟩

variable (L : Loro Blob C Digest) (s : DocState C Digest)

/-- The operations an edit starts from. -/
def opened : OpLog C := (s.version.map Version.current).getD ∅

/-- The document with an edit of this device or of another one. -/
def applyEdit (me : Bytes32) (update : Blob) (edit : LastEdit Digest)
    (aiGenerated : Bool) (now : ℕ) : DocState C Digest :=
  match L.importInto s.opened update with
  | none => s
  | some current =>
    { version := some ⟨current, s.version.map Version.current, some edit⟩
      rings :=
        if edit.author = me then s.rings
        else edit.blocks.foldl (·.push ⟨edit.author, edit.opId, now, aiGenerated⟩) s.rings }

theorem applyEdit_of_import {L : Loro Blob C Digest} {s : DocState C Digest}
    {me : Bytes32} {update : Blob} {edit : LastEdit Digest} {aiGenerated : Bool} {now : ℕ}
    {current : OpLog C} (imported : L.importInto s.opened update = some current) :
    s.applyEdit L me update edit aiGenerated now =
      ⟨some ⟨current, s.version.map Version.current, some edit⟩,
        if edit.author = me then s.rings
        else edit.blocks.foldl (·.push ⟨edit.author, edit.opId, now, aiGenerated⟩) s.rings⟩ := by
  rw [applyEdit, imported]

theorem applyEdit_of_refused {L : Loro Blob C Digest} {s : DocState C Digest}
    {me : Bytes32} {update : Blob} {edit : LastEdit Digest} {aiGenerated : Bool} {now : ℕ}
    (refused : L.importInto s.opened update = none) :
    s.applyEdit L me update edit aiGenerated now = s := by
  rw [applyEdit, refused]

/-- The document with an edit of which only the first pushes were done. -/
def applyEditCut (pushed : ℕ) (me : Bytes32) (update : Blob) (edit : LastEdit Digest)
    (aiGenerated : Bool) (now : ℕ) : DocState C Digest :=
  match L.importInto s.opened update with
  | none => s
  | some current =>
    { version := some ⟨current, s.version.map Version.current, some edit⟩
      rings :=
        if edit.author = me then s.rings
        else (edit.blocks.take pushed).foldl
          (·.push ⟨edit.author, edit.opId, now, aiGenerated⟩) s.rings }

theorem applyEditCut_length (me : Bytes32) (update : Blob) (edit : LastEdit Digest)
    (aiGenerated : Bool) (now : ℕ) :
    s.applyEditCut L edit.blocks.length me update edit aiGenerated now =
      s.applyEdit L me update edit aiGenerated now := by
  rw [applyEditCut, List.take_length]
  rfl

/-- What is in a ring after an edit was there, or stands for the edit of somebody else. -/
theorem mem_rings_applyEditCut {L : Loro Blob C Digest} {s : DocState C Digest} {pushed : ℕ}
    {me : Bytes32} {update : Blob} {edit : LastEdit Digest} {aiGenerated : Bool} {now : ℕ}
    {block : BlockId} {e : AuthorEntry Digest}
    (mem : e ∈ (s.applyEditCut L pushed me update edit aiGenerated now).rings block) :
    edit.author ≠ me ∧ e = ⟨edit.author, edit.opId, now, aiGenerated⟩ ∨ e ∈ s.rings block := by
  unfold applyEditCut at mem
  cases imported : L.importInto s.opened update with
  | none =>
    rw [imported] at mem
    exact .inr mem
  | some current =>
    rw [imported] at mem
    dsimp only at mem
    split_ifs at mem with own
    · exact .inr mem
    · exact (Rings.mem_foldl_push mem).imp (And.intro own) id

theorem mem_rings_applyEdit {L : Loro Blob C Digest} {s : DocState C Digest}
    {me : Bytes32} {update : Blob} {edit : LastEdit Digest} {aiGenerated : Bool} {now : ℕ}
    {block : BlockId} {e : AuthorEntry Digest}
    (mem : e ∈ (s.applyEdit L me update edit aiGenerated now).rings block) :
    edit.author ≠ me ∧ e = ⟨edit.author, edit.opId, now, aiGenerated⟩ ∨ e ∈ s.rings block := by
  rw [← applyEditCut_length] at mem
  exact mem_rings_applyEditCut mem

/-- The operations after a local edit. -/
def committed [DecidableEq C] (me : Bytes32) (newBody : String) : OpLog C :=
  commit s.opened (peerIdFrom me) (L.replaceBody s.opened newBody)

def applyLocal [DecidableEq C] (ids : OpIds Blob Digest) (me : Bytes32) (newBody : String)
    (now : ℕ) : DocState C Digest :=
  let current := s.committed L me newBody
  { s with
    version := some ⟨current, s.version.map Version.current,
      some ⟨ids.localEdit me (L.currentRev s.opened) (L.exportUpdates current), now, me,
        [bodyBlockId]⟩⟩ }

/-- The ring of a block as the veto check sees it. -/
def vetoRing (block : BlockId) : Doc.Ring Digest :=
  Doc.Ring.fromEntries ((s.rings block).map fun e => ⟨e.author, e.editOpId, e.editedAt⟩)

/-- A ring that was never overfull is seen whole. -/
theorem entries_vetoRing {block : BlockId} (bound : (s.rings block).length ≤ ringSize) :
    (s.vetoRing block).entries =
      (s.rings block).map fun e => ⟨e.author, e.editOpId, e.editedAt⟩ :=
  lastN_of_length_le (by rwa [List.length_map])

/-- The newest entry of a ring is the newest one the veto check sees. -/
theorem newest_vetoRing (block : BlockId) :
    (s.vetoRing block).newest =
      (s.rings block).getLast?.map fun e => ⟨e.author, e.editOpId, e.editedAt⟩ := by
  simp only [vetoRing, Doc.Ring.newest, Doc.Ring.fromEntries, lastN, List.getLast?_drop,
    List.getLast?_map]
  split_ifs with short
  · have none : s.rings block = [] := by
      refine List.eq_nil_of_length_eq_zero ?_
      simp only [List.length_map, ringSize] at short
      omega
    simp [none]
  · rfl

/-- An authorised veto names the newest entry of a ring. -/
theorem newest_of_authorised [DecidableEq Digest] {s : DocState C Digest} {block : BlockId}
    {revoker : Bytes32} {target : Digest} {ts now : ℕ}
    (h : vetoAuthorised (s.vetoRing block) revoker target ts now = true) :
    ∃ e, (s.rings block).getLast? = some e ∧ e.editOpId = target := by
  obtain ⟨-, -, entry, newest, named⟩ := vetoAuthorised_iff.1 h
  rw [newest_vetoRing] at newest
  obtain ⟨e, he, rfl⟩ := Option.map_eq_some_iff.1 newest
  exact ⟨e, he, named⟩

/-- The document before its newest edit, of which nothing is known any more. -/
def rolledBack (prior : OpLog C) (blocks : List BlockId) : DocState C Digest :=
  ⟨some ⟨prior, none, none⟩, blocks.foldl Rings.pop s.rings⟩

def applyVeto [DecidableEq Digest] (target : Digest) (revoker : Bytes32) (now : ℕ) :
    Option (DocState C Digest) := do
  let v ← s.version
  let last ← v.last
  guard (last.opId = target)
  guard (last.blocks.any fun block =>
    vetoAuthorised (s.vetoRing block) revoker target last.ts now)
  let prior ← v.prior
  return s.rolledBack prior last.blocks

theorem applyVeto_eq_some [DecidableEq Digest] {s s' : DocState C Digest} {target : Digest}
    {revoker : Bytes32} {now : ℕ} :
    s.applyVeto target revoker now = some s' ↔
      ∃ v last prior, s.version = some v ∧ v.last = some last ∧ v.prior = some prior ∧
        last.opId = target ∧ (∃ block ∈ last.blocks,
          vetoAuthorised (s.vetoRing block) revoker target last.ts now = true) ∧
        s.rolledBack prior last.blocks = s' := by
  simp only [applyVeto, Option.bind_eq_bind, Option.bind_eq_some_iff, Option.guard_eq_some',
    List.any_eq_true, Option.pure_def, Option.some.injEq, exists_const]
  grind

end DocState

/-- What an event does to the document of `key`. -/
def DocState.step [DecidableEq C] [DecidableEq Digest] (L : Loro Blob C Digest)
    (ids : OpIds Blob Digest) (me : Bytes32) (key : String) (s : DocState C Digest) :
    DocEvent Blob Digest → DocState C Digest
  | .publishDocEdit interpKey newBody _ _ now =>
    if interpKey = key then s.applyLocal L ids me newBody now else s
  | .docEdited op now =>
    if op.interpKey = key then
      s.applyEdit L me op.crdtUpdate (op.lastEdit ids) op.aiGenerated now
    else s
  | .docVetoProposed op now =>
    if op.interpKey = key then
      (s.applyVeto op.targetEditOpId op.header.verifyingKey now).getD s
    else s
  | .proposeDocVeto interpKey target _ now =>
    if interpKey = key then (s.applyVeto target me now).getD s else s
  | .restart => s

/-! ## The tables hold the state -/

/-- The columns in which the store keeps a version. -/
def Version.columns (L : Loro Blob C Digest) (v : Version C Digest) :
    Blob × DocMeta Blob Digest :=
  (L.exportSnapshot v.current, ⟨v.prior.map L.exportSnapshot, v.last.map (·.opId),
    v.last.map (·.ts), v.last.map (·.author), v.last.map fun l => encodeBlocks l.blocks⟩)

/-- Snapshots of the version restore. -/
structure Version.Valid (P : OpLog C → Prop) (v : Version C Digest) : Prop where
  current : P v.current
  prior : ∀ p, v.prior = some p → P p

theorem Version.valid_of_no_prior {P : OpLog C → Prop} {d : OpLog C} (hd : P d) :
    (⟨d, none, none⟩ : Version C Digest).Valid P where
  current := hd
  prior p none := (Option.some_ne_none p none.symm).elim

/-- The store holds the state `s` of the document of `key`. -/
structure Represents (L : Loro Blob C Digest) (P : OpLog C → Prop) (st : DocStore Blob Digest)
    (key : String) (s : DocState C Digest) : Prop where
  row : (st.docs.find? key).map DocRow.columns = s.version.map (Version.columns L)
  rings : ∀ block, st.blockRingGet key block = s.rings block
  valid : ∀ v, s.version = some v → v.Valid P

namespace Represents

variable {L : Loro Blob C Digest} {P : OpLog C → Prop} {st : DocStore Blob Digest}
  {key key' : String} {s : DocState C Digest}

theorem empty : Represents L P DocStore.empty key (DocState.fresh : DocState C Digest) where
  row := rfl
  rings _ := rfl
  valid _ h := nomatch h

/-! ### Parts of handlers -/

theorem docLoad (h : Represents L P st key s) :
    st.docLoad key = s.version.map fun v => L.exportSnapshot v.current := by
  have row := congrArg (Option.map Prod.fst) h.row
  simpa [DocStore.docLoad, DocRow.columns, Version.columns, Function.comp_def] using row

theorem docLoadMeta (h : Represents L P st key s) :
    st.docLoadMeta key = s.version.map fun v => (v.columns L).2 := by
  have row := congrArg (Option.map Prod.snd) h.row
  simpa [DocStore.docLoadMeta, Function.comp_def] using row

/-- A row that holds a version is written. -/
theorem save (h : Represents L P st key s) (row : DocRow Blob Digest) (v : Version C Digest)
    (hkey : row.interpKey = key) (hrow : row.columns = v.columns L) (valid : v.Valid P) :
    Represents L P { st with docs := st.docs.upsert row } key { s with version := some v } where
  row := by simp [Table.find?_upsert, hkey, hrow]
  rings := h.rings
  valid v' hv := Option.some.inj hv ▸ valid

theorem save_other (h : Represents L P st key s) (row : DocRow Blob Digest)
    (hkey : row.interpKey ≠ key) :
    Represents L P { st with docs := st.docs.upsert row } key s where
  row := by rw [Table.find?_upsert, if_neg hkey]; exact h.row
  rings := h.rings
  valid := h.valid

theorem docSaveWithHistory_other (h : Represents L P st key s) (ne : key' ≠ key)
    {snapshot : Blob} {rev opId : Digest} {prior : Option Blob} {ts now : ℕ} {author : Bytes32}
    {blocks : Bytes} :
    Represents L P (st.docSaveWithHistory key' snapshot rev prior opId ts author blocks now) key
      s :=
  h.save_other _ ne

theorem push (h : Represents L P st key s) (entry : AuthorEntry Digest) (blocks : List BlockId) :
    Represents L P (blocks.foldl (fun st block => st.blockRingPush key block entry) st) key
      { s with rings := blocks.foldl (·.push entry) s.rings } where
  row := by
    rw [docs_foldl_push]
    exact h.row
  rings b := by rw [blockRingGet_foldl_push, funext h.rings]
  valid := h.valid

theorem push_other (h : Represents L P st key s) (ne : key' ≠ key) (entry : AuthorEntry Digest)
    (blocks : List BlockId) :
    Represents L P (blocks.foldl (fun st block => st.blockRingPush key' block entry) st) key s := by
  induction blocks generalizing st with
  | nil => exact h
  | cons block blocks ih =>
    refine ih ⟨h.row, fun b => ?_, h.valid⟩
    rw [DocStore.blockRingGet_push, if_neg fun same => ne same.1]
    exact h.rings b

theorem pop (h : Represents L P st key s) (blocks : List BlockId) :
    Represents L P
      { st with blockAuthors := blocks.foldl (fun t block => t.pop key block) st.blockAuthors } key
      { s with rings := blocks.foldl Rings.pop s.rings } where
  row := h.row
  rings b := by
    rw [DocStore.blockRingGet, get_foldl_pop, ← funext h.rings]
    rfl
  valid := h.valid

theorem pop_other (h : Represents L P st key s) (ne : key' ≠ key) (blocks : List BlockId) :
    Represents L P
      { st with blockAuthors := blocks.foldl (fun t block => t.pop key' block) st.blockAuthors }
      key s := by
  induction blocks generalizing st with
  | nil => exact h
  | cons block blocks ih =>
    have popped :
        Represents L P { st with blockAuthors := st.blockAuthors.pop key' block } key s := by
      refine ⟨h.row, fun b => ?_, h.valid⟩
      rw [DocStore.blockRingGet, AuthorTable.get_pop, if_neg fun same => ne same.1]
      exact h.rings b
    exact ih popped

/-- A rollback restores the state before the newest edit. -/
theorem docRollback (h : Represents L P st key s) {v : Version C Digest} {prior : OpLog C}
    (hv : s.version = some v) (hp : v.prior = some prior) (rev : Digest) (blocks : List BlockId)
    (now : ℕ) :
    ∃ st', st.docRollback key rev blocks now = some st' ∧
      Represents L P st' key (s.rolledBack prior blocks) := by
  have columns := h.row
  rw [hv, Option.map_some] at columns
  obtain ⟨row, found, same⟩ := Option.map_eq_some_iff.1 columns
  have hprior : row.priorSnapshot = some (L.exportSnapshot prior) := by
    have := congrArg (fun c => c.2.priorSnapshot) same
    simpa [DocRow.columns, Version.columns, hp] using this
  have saved := h.save (row.rolledBack (L.exportSnapshot prior) rev now) ⟨prior, none, none⟩
    (Table.find?_eq_some.1 found).2 rfl
    (Version.valid_of_no_prior ((h.valid v hv).prior prior hp))
  exact ⟨_, by simp [DocStore.docRollback, found, hprior], saved.pop blocks⟩

/-! ### The other documents -/

theorem applyDocEditCut_other (h : Represents L P st key s) (ne : key' ≠ key) (pushed : ℕ)
    (me : Bytes32) (update : Blob) (edit : LastEdit Digest) (aiGenerated : Bool) (now : ℕ) :
    Represents L P
      (App.applyDocEditCut L st me pushed key' update edit.author edit.opId edit.ts edit.blocks
        aiGenerated now) key s := by
  unfold App.applyDocEditCut
  split
  · exact h
  · dsimp only
    split_ifs
    · exact h.docSaveWithHistory_other ne
    · exact (h.docSaveWithHistory_other ne).push_other ne _ _

theorem applyDocEdit_other (h : Represents L P st key s) (ne : key' ≠ key) (me : Bytes32)
    (update : Blob) (edit : LastEdit Digest) (aiGenerated : Bool) (now : ℕ) :
    Represents L P
      (App.applyDocEdit L st me key' update edit.author edit.opId edit.ts edit.blocks aiGenerated
        now) key s := by
  rw [← applyDocEditCut_length]
  exact h.applyDocEditCut_other ne edit.blocks.length me update edit aiGenerated now

theorem docRollback_other (h : Represents L P st key s) (ne : key' ≠ key) {rev : Digest}
    {blocks : List BlockId} {now : ℕ} {st' : DocStore Blob Digest}
    (rolled : st.docRollback key' rev blocks now = some st') : Represents L P st' key s := by
  simp only [DocStore.docRollback, Option.bind_eq_bind, Option.bind_eq_some_iff, Option.pure_def,
    Option.some.injEq] at rolled
  obtain ⟨row, found, prior, -, rfl⟩ := rolled
  have hrow := (Table.find?_eq_some.1 found).2
  have saved := h.save_other (row.rolledBack prior rev now) fun same => ne (hrow.symm.trans same)
  exact saved.pop_other ne blocks

theorem applyDocVeto_other [DecidableEq Digest] (h : Represents L P st key s) (ne : key' ≠ key)
    (target : Digest) (revoker : Bytes32) (now : ℕ) :
    Represents L P ((App.applyDocVeto L st target revoker key' now).getD st) key s := by
  cases honoured : App.applyDocVeto L st target revoker key' now with
  | none => exact h
  | some st' =>
    simp only [App.applyDocVeto, Option.bind_eq_bind, Option.bind_eq_some_iff] at honoured
    obtain ⟨info, -, -, -, ts, -, author, -, -, -, -, -, prior, -, restored, -, rolled⟩ := honoured
    exact h.docRollback_other ne rolled

/-! ### The handlers -/

variable [DecidableEq C]

theorem opened_valid (hL : L.Restores P) (h : Represents L P st key s) : P s.opened := by
  unfold DocState.opened
  cases hv : s.version with
  | none => exact hL.valid_empty
  | some v => exact (h.valid v hv).current

omit [DecidableEq C] in
theorem prior_valid (h : Represents L P st key s) {prior : OpLog C}
    (hp : s.version.map Version.current = some prior) : P prior := by
  obtain ⟨v, hv, rfl⟩ := Option.map_eq_some_iff.1 hp
  exact (h.valid v hv).current

theorem openDoc (hL : L.Restores P) (h : Represents L P st key s) (me : Bytes32) :
    openDoc L st me key = some ⟨s.opened, peerIdFrom me⟩ := by
  unfold App.openDoc DocState.opened
  rw [h.docLoad]
  cases hv : s.version with
  | none => rfl
  | some v => simp [InterpDoc.fromSnapshot, hL.restore _ (h.valid v hv).current]

theorem openLocal (hL : L.Restores P) (h : Represents L P st key s) (me : Bytes32) :
    openLocal L st me key = ⟨s.opened, peerIdFrom me⟩ := by
  rw [App.openLocal, h.openDoc hL, Option.getD_some]

theorem applyDocEditCut (hL : L.Restores P) (h : Represents L P st key s) (pushed : ℕ)
    (me : Bytes32) (update : Blob) (edit : LastEdit Digest) (aiGenerated : Bool) (now : ℕ) :
    Represents L P
      (applyDocEditCut L st me pushed key update edit.author edit.opId edit.ts edit.blocks
        aiGenerated now)
      key (s.applyEditCut L pushed me update edit aiGenerated now) := by
  unfold App.applyDocEditCut DocState.applyEditCut
  rw [h.openDoc hL, Option.bind_some, InterpDoc.applyRemote]
  cases imported : L.importInto s.opened update with
  | none => exact h
  | some current =>
    have saved := h.save
      ⟨key, L.exportSnapshot current, L.currentRev current, now, st.docLoad key,
        some edit.opId, some edit.ts, some edit.author, some (encodeBlocks edit.blocks)⟩
      ⟨current, s.version.map Version.current, some edit⟩ rfl
      (by simp [DocRow.columns, Version.columns, h.docLoad, Function.comp_def])
      ⟨hL.valid_import _ _ _ (h.opened_valid hL) imported, fun p hp => h.prior_valid hp⟩
    dsimp only [Option.map_some]
    split_ifs
    · exact saved
    · exact saved.push _ _

theorem applyDocEdit (hL : L.Restores P) (h : Represents L P st key s) (me : Bytes32)
    (update : Blob) (edit : LastEdit Digest) (aiGenerated : Bool) (now : ℕ) :
    Represents L P
      (applyDocEdit L st me key update edit.author edit.opId edit.ts edit.blocks aiGenerated now)
      key (s.applyEdit L me update edit aiGenerated now) := by
  rw [← applyDocEditCut_length, ← DocState.applyEditCut_length]
  exact h.applyDocEditCut hL edit.blocks.length me update edit aiGenerated now

/-- The handler honours the vetoes that the state honours. -/
theorem applyDocVeto [DecidableEq Digest] (hL : L.Restores P) (h : Represents L P st key s)
    (target : Digest) (revoker : Bytes32) (now : ℕ) :
    ((applyDocVeto L st target revoker key now).isSome ↔
      (s.applyVeto target revoker now).isSome) ∧
    Represents L P ((App.applyDocVeto L st target revoker key now).getD st) key
      ((s.applyVeto target revoker now).getD s) := by
  have ring : ∀ block, App.vetoRing st key block = s.vetoRing block := fun block => by
    rw [App.vetoRing, h.rings block, DocState.vetoRing]
  cases hv : s.version with
  | none => simpa [App.applyDocVeto, DocState.applyVeto, h.docLoadMeta, hv] using h
  | some v =>
    cases hl : v.last with
    | none =>
      simpa [App.applyDocVeto, DocState.applyVeto, h.docLoadMeta, hv, hl, Version.columns] using h
    | some last =>
      simp only [App.applyDocVeto, DocState.applyVeto, h.docLoadMeta, hv, hl, Version.columns,
        decodeBlocks_encodeBlocks, ring, Option.map_some, Option.getD_some, Option.bind_eq_bind,
        Option.bind_some, Option.some.injEq]
      by_cases named : last.opId = target
      · by_cases authorised : (last.blocks.any fun block =>
          vetoAuthorised (s.vetoRing block) revoker target last.ts now) = true
        · have some_block : last.blocks ≠ [] := fun none => by simp [none] at authorised
          cases hp : v.prior with
          | none => simpa [guard, named, authorised, some_block] using h
          | some prior =>
            obtain ⟨st', rolled, holds⟩ := h.docRollback hv hp (L.currentRev prior) last.blocks now
            have restored := hL.restore prior ((h.valid v hv).prior prior hp)
            simpa [guard, named, authorised, some_block, InterpDoc.fromSnapshot, restored,
              InterpDoc.currentRev, rolled] using holds
        · simpa [guard, named, authorised] using h
      · simpa [guard, named] using h

theorem publishDocEdit (hL : L.Restores P) (h : Represents L P st key s) (ids : OpIds Blob Digest)
    (me : Bytes32) (newBody : String) (now : ℕ) :
    Represents L P (publishDocEdit L ids st me key newBody now) key
      (s.applyLocal L ids me newBody now) := by
  have current : editLocal L st me key newBody = ⟨s.committed L me newBody, peerIdFrom me⟩ := by
    rw [editLocal, h.openLocal hL]
    rfl
  have opId : localEditId L ids st me key newBody = ids.localEdit me (L.currentRev s.opened)
      (L.exportUpdates (s.committed L me newBody)) := by
    rw [localEditId, localUpdate, current, h.openLocal hL]
    rfl
  refine h.save _ ⟨s.committed L me newBody, s.version.map Version.current,
    some ⟨_, now, me, [bodyBlockId]⟩⟩ rfl ?_ ⟨?_, fun p hp => h.prior_valid hp⟩
  · rw [← opId]
    simp [DocRow.columns, Version.columns, h.docLoad, localUpdate, current, InterpDoc.snapshot,
      InterpDoc.publishLocal, Function.comp_def]
  · exact hL.valid_commit _ _ _ (h.opened_valid hL)

/-! ### Whole events -/

/-- The update of a local edit holds the operations of the document after it. -/
theorem localUpdate (hL : L.Restores P) (h : Represents L P st key s) (me : Bytes32)
    (newBody : String) :
    (localUpdate L st me key newBody).updateBytes =
      L.exportUpdates (s.committed L me newBody) := by
  rw [App.localUpdate, editLocal, h.openLocal hL]
  rfl

variable [DecidableEq Digest]

/-- An event does to the stored document what it does to its state. -/
theorem step (hL : L.Restores P) {d : Device Blob Digest} (h : Represents L P d.store key s)
    (ids : OpIds Blob Digest) (me : Bytes32) (e : DocEvent Blob Digest) :
    Represents L P (d.step L ids me e).store key (s.step L ids me key e) := by
  cases e with
  | publishDocEdit interpKey newBody aiGenerated header now =>
    dsimp only [DocState.step]
    split_ifs with same
    · subst same
      exact h.publishDocEdit hL ids me newBody now
    · exact h.docSaveWithHistory_other same
  | docEdited op now =>
    dsimp only [DocState.step]
    split_ifs with same
    · subst same
      exact h.applyDocEdit hL me op.crdtUpdate (op.lastEdit ids) op.aiGenerated now
    · exact h.applyDocEdit_other same me op.crdtUpdate (op.lastEdit ids) op.aiGenerated now
  | docVetoProposed op now =>
    dsimp only [DocState.step]
    split_ifs with same
    · subst same
      exact (h.applyDocVeto hL op.targetEditOpId op.header.verifyingKey now).2
    · exact h.applyDocVeto_other same op.targetEditOpId op.header.verifyingKey now
  | proposeDocVeto interpKey target header now =>
    dsimp only [DocState.step]
    split_ifs with same
    · subst same
      exact (h.applyDocVeto hL target me now).2
    · exact h.applyDocVeto_other same target me now
  | restart => exact h

/-- What a run does to the stored document is a run of its state. -/
theorem exec (hL : L.Restores P) {d : Device Blob Digest} (h : Represents L P d.store key s)
    (ids : OpIds Blob Digest) (me : Bytes32) (es : List (DocEvent Blob Digest)) :
    Represents L P (exec (Device.step L ids me) d es).store key
      (Lib.exec (DocState.step L ids me key) s es) := by
  induction es generalizing d s with
  | nil => exact h
  | cons e es ih => exact ih (h.step hL ids me e)

end Represents

/-! ## The first start -/

/-- A document after the first start: no edit has been applied to it, and the entries of
its rings stand for the texts it was made of. -/
structure DocState.Seeded (ids : OpIds Blob Digest) (s : DocState C Digest) : Prop where
  version : ∀ v, s.version = some v → v.prior = none ∧ v.last = none
  rings : ∀ block, ∀ e ∈ s.rings block, ∃ author text, e.editOpId = ids.migrationEdit author text
  length : ∀ block, (s.rings block).length ≤ ringSize

section FirstStart

variable {L : Loro Blob C Digest} {P : OpLog C → Prop} {st : DocStore Blob Digest} {key : String}
  {s : DocState C Digest} {ids : OpIds Blob Digest}

/-- Saving a snapshot alone keeps what is stored of the newest edit. -/
theorem Represents.docSave (h : Represents L P st key s) (d : OpLog C) (hd : P d) (rev : Digest)
    (now : ℕ) :
    Represents L P (st.docSave key (L.exportSnapshot d) rev now) key
      { s with version := some ⟨d, s.version.bind Version.prior, s.version.bind Version.last⟩ } := by
  have valid : (⟨d, s.version.bind Version.prior, s.version.bind Version.last⟩ :
      Version C Digest).Valid P := by
    refine ⟨hd, fun p hp => ?_⟩
    obtain ⟨v, hv, hprior⟩ := Option.bind_eq_some_iff.1 hp
    exact (h.valid v hv).prior p hprior
  have columns := h.row
  unfold DocStore.docSave
  cases found : st.docs.find? key with
  | none =>
    rw [found, Option.map_none, eq_comm, Option.map_eq_none_iff] at columns
    exact h.save _ _ rfl (by simp [columns, DocRow.columns, Version.columns]) valid
  | some row =>
    rw [found, Option.map_some] at columns
    obtain ⟨v, hv, same⟩ := Option.map_eq_some_iff.1 columns.symm
    refine h.save _ _ (Table.find?_eq_some.1 found).2 ?_ valid
    simp_all [DocRow.columns, Version.columns]

theorem Represents.docSave_other (h : Represents L P st key s) {key' : String} (ne : key' ≠ key)
    (snapshot : Blob) (rev : Digest) (now : ℕ) :
    Represents L P (st.docSave key' snapshot rev now) key s := by
  unfold DocStore.docSave
  exact h.save_other _ (by grind [Table.find?_eq_some])

/-- A document without a newest edit is saved without one. -/
theorem Represents.docSave_seeded (h : Represents L P st key s) (seeded : s.Seeded ids)
    (d : OpLog C) (hd : P d) (rev : Digest) (now : ℕ) :
    Represents L P (st.docSave key (L.exportSnapshot d) rev now) key
      { s with version := some ⟨d, none, none⟩ } := by
  have saved := h.docSave d hd rev now
  cases hv : s.version with
  | none => simpa [hv] using saved
  | some v =>
    obtain ⟨prior, last⟩ := seeded.version v hv
    simpa [hv, prior, last] using saved

/-- The authors of the old texts are pushed onto the ring of the body. -/
theorem Represents.pushLegacy (h : Represents L P st key s) (seeded : s.Seeded ids) (key' : String)
    (rows : List (String × Bytes32 × ℕ)) :
    ∃ s' : DocState C Digest, Represents L P (rows.foldl (fun st row =>
        st.blockRingPush key' bodyBlockId
          ⟨row.2.1, ids.migrationEdit row.2.1 row.1, row.2.2, false⟩) st) key s' ∧
      s'.Seeded ids := by
  induction rows generalizing st s with
  | nil => exact ⟨s, h, seeded⟩
  | cons row rows ih =>
    by_cases same : key' = key
    · subst same
      refine ih (h.push ⟨row.2.1, ids.migrationEdit row.2.1 row.1, row.2.2, false⟩ [bodyBlockId])
        ⟨seeded.version, fun block e he => ?_,
          fun _ => Rings.length_foldl_push seeded.length⟩
      rcases Rings.mem_foldl_push he with rfl | old
      · exact ⟨_, _, rfl⟩
      · exact seeded.rings block e old
    · exact ih (h.push_other same _ [bodyBlockId]) seeded

variable [DecidableEq C]

theorem Represents.migrateKey (hL : L.Restores P) (h : Represents L P st key s)
    (seeded : s.Seeded ids) (me : Bytes32) (now : ℕ) (legacy : LegacyKey) :
    ∃ s' : DocState C Digest,
      Represents L P (migrateKey L ids st me now legacy) key s' ∧ s'.Seeded ids := by
  unfold App.migrateKey
  split_ifs
  · exact ⟨s, h, seeded⟩
  · by_cases same : legacy.interpKey = key
    · rw [same]
      have saved := h.docSave_seeded seeded _ (hL.valid_commit ∅ (peerIdFrom me)
        (L.replaceBody ∅ legacy.body) hL.valid_empty) (L.currentRev (commit ∅ (peerIdFrom me)
        (L.replaceBody ∅ legacy.body))) now
      refine saved.pushLegacy ⟨fun v hv => ?_, seeded.rings, seeded.length⟩ key legacy.rows
      obtain rfl := Option.some.inj hv
      exact ⟨rfl, rfl⟩
    · exact (h.docSave_other same _ _ _).pushLegacy seeded _ _

/-- Every document is seeded after the first start. -/
theorem Represents.firstStart (hL : L.Restores P) (ids : OpIds Blob Digest) (me : Bytes32)
    (now : ℕ) (keys : List LegacyKey) (key : String) :
    ∃ s : DocState C Digest,
      Represents L P (Device.firstStart L ids me now keys).store key s ∧ s.Seeded ids := by
  have run : ∀ (st : DocStore Blob Digest) (s : DocState C Digest), Represents L P st key s →
      s.Seeded ids → ∃ s' : DocState C Digest,
        Represents L P (migrateInterpsToDocs L ids st me now keys) key s' ∧ s'.Seeded ids := by
    induction keys with
    | nil => exact fun st s h seeded => ⟨s, h, seeded⟩
    | cons legacy keys ih =>
      intro st s h seeded
      obtain ⟨s', h', seeded'⟩ := h.migrateKey hL seeded me now legacy
      exact ih _ s' h' seeded'
  exact run _ _ Represents.empty ⟨fun _ hv => (nomatch hv),
    fun _ _ he => absurd he List.not_mem_nil, fun _ => Nat.zero_le _⟩

end FirstStart

end Zodia.App
