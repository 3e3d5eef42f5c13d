import Mathlib.Data.Finset.Basic
import Zodia.Lib.Run
import Zodia.Store.Interpretations

/-!
# Arrival order and the interpretations table

The events of the sync pipeline and the signed rows of the Tier-1 exchange, applied to
an empty table in some order and with any repetitions. A finite set of events leaves
the same rows in every order exactly when no two of its events conflict: two offer
different rows under one log id, or one responds to a row of the set, or one revokes
a row of the set.

## Main definitions

* `handleEvent` — the effect of one event on the table.
* `InterpFacts` — a row without its receive time and the bytes of its signature.
* `offered` — the row an event offers to an empty table.
* `Conflict` — the pairs of events whose order shows.
-/

namespace Zodia.Store

open Lib

variable {Digest Sig Secret VerifyingKey : Type*}

/-- What the sync pipeline and the Tier-1 exchange hand to the store. -/
inductive InterpEvent (Digest Sig : Type*) where
  | authored (author : Bytes32) (interpKey body : String)
  | response (author : Bytes32) (parentLogId : Digest) (body : String)
  | revoked (revoker : Bytes32) (targetLogId : Digest)
  | received (interpKey body : String) (authorPk : Bytes32) (authorSig : Sig)
  deriving DecidableEq

/-- A row without its receive time and the bytes of its signature. -/
@[ext] structure InterpFacts (Digest : Type*) where
  logId : Digest
  interpKey : String
  interpKind : String
  body : String
  authorPk : Option Bytes32
  signed : Bool
  parentLogId : Option Digest
  isBaseline : Bool
  revoked : Bool

def InterpRow.facts (r : InterpRow Digest Sig) : InterpFacts Digest where
  logId := r.logId
  interpKey := r.interpKey
  interpKind := r.interpKind
  body := r.body
  authorPk := r.authorPk
  signed := r.authorSig.isSome
  parentLogId := r.parentLogId
  isBaseline := r.isBaseline
  revoked := r.revoked

/-- The part of a row that nothing rewrites. -/
def InterpFacts.written (f : InterpFacts Digest) : InterpFacts Digest := { f with revoked := false }

theorem InterpFacts.written_of_not_revoked {f : InterpFacts Digest} (h : f.revoked = false) :
    f.written = f := by
  cases f
  simp_all [written]

variable [DecidableEq Digest] (hash : Hash Digest)
  (S : SignatureScheme Secret VerifyingKey Digest Sig) (muted : Bytes32 → Bool)

/-! ## Applying events -/

/-- The effect of one event, received at `now`. Authored interpretations and responses
of a muted peer are dropped before they reach the store. -/
def handleEvent (t : Interpretations Digest Sig) :
    InterpEvent Digest Sig × ℕ → Interpretations Digest Sig
  | (.authored author interpKey body, now) =>
    if muted author then t else insertFromOp hash t interpKey body author now
  | (.response author parentLogId body, now) =>
    if muted author then t else insertResponseFromOp hash t parentLogId body author now
  | (.revoked revoker targetLogId, _) => revokeInterp t targetLogId revoker
  | (.received interpKey body authorPk authorSig, now) =>
    match insertReceived hash S t interpKey body authorPk authorSig now with
    | .ok t' => t'
    | .error _ => t

/-- The row an event offers to the table it meets. -/
def offers (t : Interpretations Digest Sig) :
    InterpEvent Digest Sig × ℕ → Option (InterpRow Digest Sig)
  | (.authored author interpKey body, now) =>
    if muted author then none else some (opRow hash interpKey body author now)
  | (.response author parentLogId body, now) =>
    if muted author then none
    else some (responseRow hash (responseKey t parentLogId).1 (responseKey t parentLogId).2
      parentLogId body author now)
  | (.revoked _ _, _) => none
  | (.received interpKey body authorPk authorSig, now) =>
    if S.accepts authorPk (deriveLogId hash interpKey body) authorSig then
      some (receivedRow hash interpKey body authorPk authorSig now)
    else none

/-- The row an event offers to an empty table, where every response is an orphan. -/
def offered (e : InterpEvent Digest Sig) : Option (InterpFacts Digest) :=
  (offers hash S muted Table.empty (e, 0)).map InterpRow.facts

/-- `l` applies the events of `E`, in its own order and with its own repetitions. -/
def Applies (E : Finset (InterpEvent Digest Sig)) (l : List (InterpEvent Digest Sig × ℕ)) : Prop :=
  ∀ e, (∃ now, (e, now) ∈ l) ↔ e ∈ E

/-- The table after the events of `l`, from the empty one. -/
abbrev tableAfter (l : List (InterpEvent Digest Sig × ℕ)) : Interpretations Digest Sig :=
  exec (handleEvent hash S muted) Table.empty l

/-- The tables hold the same rows, and every read may return the same rows of both, up
to receive times. -/
structure SameReads (t t' : Interpretations Digest Sig) : Prop where
  rows : SameUnder InterpRow.facts t t'
  topBody : ∀ affirmations key body,
    TopBody affirmations t key body → TopBody affirmations t' key body
  allForKey : ∀ affirmations key out, AllForKey affirmations t key out →
    ∃ out', AllForKey affirmations t' key out' ∧ out'.map InterpRow.facts = out.map InterpRow.facts
  communityForKeys : ∀ affirmations keys limit out,
    CommunityForKeys affirmations t keys limit out →
    ∃ out', CommunityForKeys affirmations t' keys limit out' ∧
      out'.map InterpRow.facts = out.map InterpRow.facts
  responsesFor : ∀ parent out, ResponsesFor t parent out → ∃ out', ResponsesFor t' parent out' ∧
    (out'.map InterpRow.facts).Perm (out.map InterpRow.facts)

/-- Two events of the set whose order shows in the table. -/
inductive Conflict (E : Finset (InterpEvent Digest Sig)) : Prop
  /-- Different rows are offered under one log id. -/
  | rows {e e' : InterpEvent Digest Sig} {f f' : InterpFacts Digest} (he : e ∈ E) (he' : e' ∈ E)
      (hf : offered hash S muted e = some f) (hf' : offered hash S muted e' = some f')
      (same : f.logId = f'.logId) (ne : f ≠ f')
  /-- A response names another row of the set as its parent. -/
  | parent {e e' : InterpEvent Digest Sig} {f f' : InterpFacts Digest} (he : e ∈ E) (he' : e' ∈ E)
      (hf : offered hash S muted e = some f) (hf' : offered hash S muted e' = some f')
      (child : f.parentLogId = some f'.logId) (ne : f ≠ f')
  /-- A revoke names a row of the set and its author. -/
  | revoke {revoker : Bytes32} {e : InterpEvent Digest Sig} {f : InterpFacts Digest}
      (hr : .revoked revoker f.logId ∈ E) (he : e ∈ E) (hf : offered hash S muted e = some f)
      (author : f.authorPk = some revoker)

variable {hash S muted}

/-! ## One event -/

section Step

variable {t : Interpretations Digest Sig} {e : InterpEvent Digest Sig} {now : ℕ}
  {r : InterpRow Digest Sig}

theorem handleEvent_of_offers (h : offers hash S muted t (e, now) = some r) :
    handleEvent hash S muted t (e, now) = t.insertOrIgnore r := by
  cases e with
  | revoked revoker target => cases h
  | authored author key body =>
    simp only [offers] at h
    split_ifs at h with m
    obtain rfl := Option.some.inj h
    simp [handleEvent, m, insertFromOp]
  | response author parent body =>
    simp only [offers] at h
    split_ifs at h with m
    obtain rfl := Option.some.inj h
    simp [handleEvent, m, insertResponseFromOp]
  | received key body pk sig =>
    simp only [offers] at h
    split_ifs at h with ok
    obtain rfl := Option.some.inj h
    simp [handleEvent, insertReceived, ok]

theorem handleEvent_of_none (h : offers hash S muted t (e, now) = none)
    (insert : ∀ revoker target, e ≠ .revoked revoker target) :
    handleEvent hash S muted t (e, now) = t := by
  cases e with
  | revoked revoker target => exact absurd rfl (insert revoker target)
  | authored author key body => simp_all [offers, handleEvent]
  | response author parent body => simp_all [offers, handleEvent]
  | received key body pk sig => simp_all [offers, handleEvent, insertReceived]

theorem offers_eq_none_iff :
    offers hash S muted t (e, now) = none ↔ offered hash S muted e = none := by
  cases e <;> simp [offered, offers]

theorem offered_revoked {f : InterpFacts Digest} (h : offered hash S muted e = some f) :
    f.revoked = false := by
  obtain ⟨r, hr, rfl⟩ := Option.map_eq_some_iff.1 h
  cases e with
  | revoked revoker target => cases hr
  | _ => simp only [offers] at hr; split_ifs at hr; obtain rfl := Option.some.inj hr; rfl

/-- On an empty table every response is an orphan without a key string. -/
theorem offered_orphan {f : InterpFacts Digest} {p : Digest}
    (h : offered hash S muted e = some f) (hp : f.parentLogId = some p) :
    f.interpKey = "" ∧ f.interpKind = "response_orphan" ∧
      f.logId = deriveLogId hash "" f.body := by
  obtain ⟨r, hr, rfl⟩ := Option.map_eq_some_iff.1 h
  cases e with
  | revoked revoker target => cases hr
  | response author parent body =>
    simp only [offers] at hr
    split_ifs at hr
    obtain rfl := Option.some.inj hr
    exact ⟨rfl, rfl, rfl⟩
  | _ => simp only [offers] at hr; split_ifs at hr; obtain rfl := Option.some.inj hr; cases hp

/-- An event offers its row of the empty table, except a response whose parent is
present: it takes the key string of the parent, and with it another log id. -/
theorem offers_spec (h : offers hash S muted t (e, now) = some r) :
    ∃ f, offered hash S muted e = some f ∧
      ((r.facts = f ∧ ∀ p ∈ t, f.parentLogId ≠ some p.logId) ∨
        ∃ p ∈ t, f.parentLogId = some p.logId ∧
          r.facts = { f with
            logId := deriveLogId hash p.interpKey f.body
            interpKey := p.interpKey
            interpKind := "response" }) := by
  cases e with
  | revoked revoker target => cases h
  | response author parent body =>
    simp only [offers] at h
    split_ifs at h with m
    obtain rfl := Option.some.inj h
    refine ⟨_, by simp [offered, offers, m]; rfl, ?_⟩
    cases hp : t.find? parent with
    | none =>
      refine .inl ⟨by simp [responseKey, hp]; rfl, fun p hmem same => ?_⟩
      exact Table.find?_eq_none.1 hp p hmem (Option.some.inj same).symm
    | some p =>
      obtain ⟨hmem, rfl⟩ := Table.find?_eq_some.1 hp
      exact .inr ⟨p, hmem, rfl, by simp [responseKey, hp]; rfl⟩
  | _ =>
    simp only [offers] at h
    split_ifs at h with c
    obtain rfl := Option.some.inj h
    exact ⟨_, by simp [offered, offers, c]; rfl, .inl ⟨rfl, fun p _ same => by cases same⟩⟩

end Step

/-! ## Sets without a conflict -/

/-- The rows of `t` are those that the events of `l` offer to an empty table. -/
def HoldsOffered (hash : Hash Digest) (S : SignatureScheme Secret VerifyingKey Digest Sig)
    (muted : Bytes32 → Bool) (t : Interpretations Digest Sig)
    (l : List (InterpEvent Digest Sig × ℕ)) : Prop :=
  ∀ f, (∃ r ∈ t, r.facts = f) ↔ ∃ x ∈ l, offered hash S muted x.1 = some f

section Free

variable {E : Finset (InterpEvent Digest Sig)} {t : Interpretations Digest Sig}
  {l : List (InterpEvent Digest Sig × ℕ)} {e : InterpEvent Digest Sig} {now : ℕ}

/-- The event of the set behind a row of the table. -/
theorem HoldsOffered.source (h : HoldsOffered hash S muted t l) (hl : ∀ x ∈ l, x.1 ∈ E)
    {r : InterpRow Digest Sig} (hr : r ∈ t) : ∃ e ∈ E, offered hash S muted e = some r.facts := by
  obtain ⟨x, hx, hf⟩ := (h r.facts).1 ⟨r, hr, rfl⟩
  exact ⟨x.1, hl x hx, hf⟩

/-- An insert of a row with the facts `f`, where any row in its way has the same facts. -/
theorem exists_facts_insert {r : InterpRow Digest Sig} {f : InterpFacts Digest}
    (facts : r.facts = f) (taken : ∀ p ∈ t, p.logId = f.logId → p.facts = f)
    (a : InterpFacts Digest) :
    (∃ x ∈ t.insertOrIgnore r, x.facts = a) ↔ (∃ x ∈ t, x.facts = a) ∨ a = f := by
  have logId : r.logId = f.logId := congrArg InterpFacts.logId facts
  constructor
  · rintro ⟨x, hx, rfl⟩
    rcases Table.mem_insertOrIgnore.1 hx with old | ⟨rfl, -⟩
    · exact .inl ⟨x, old, rfl⟩
    · exact .inr facts
  · rintro (⟨x, hx, rfl⟩ | rfl)
    · exact ⟨x, Table.mem_insertOrIgnore.2 (.inl hx), rfl⟩
    · by_cases free : t.Free r.logId
      · exact ⟨r, Table.mem_insertOrIgnore.2 (.inr ⟨rfl, free⟩), facts⟩
      · obtain ⟨p, hp, same⟩ : ∃ p ∈ t, p.logId = r.logId := by simpa [Table.Free] using free
        exact ⟨p, Table.mem_insertOrIgnore.2 (.inl hp), taken p hp (same.trans logId)⟩

/-- An insert of a row whose log id is taken. -/
theorem exists_facts_ignored {r p : InterpRow Digest Sig} (hp : p ∈ t) (logId : p.logId = r.logId)
    (a : InterpFacts Digest) :
    (∃ x ∈ t.insertOrIgnore r, x.facts = a) ↔ (∃ x ∈ t, x.facts = a) ∨ a = p.facts := by
  constructor
  · rintro ⟨x, hx, rfl⟩
    rcases Table.mem_insertOrIgnore.1 hx with old | ⟨rfl, free⟩
    · exact .inl ⟨x, old, rfl⟩
    · exact absurd logId (free p hp)
  · rintro (⟨x, hx, rfl⟩ | rfl)
    · exact ⟨x, Table.mem_insertOrIgnore.2 (.inl hx), rfl⟩
    · exact ⟨p, Table.mem_insertOrIgnore.2 (.inl hp), rfl⟩

theorem HoldsOffered.insert (free : ¬ Conflict hash S muted E) (hl : ∀ x ∈ l, x.1 ∈ E)
    (h : HoldsOffered hash S muted t l) (he : e ∈ E) {r : InterpRow Digest Sig}
    {f : InterpFacts Digest} (hr : offers hash S muted t (e, now) = some r)
    (hf : offered hash S muted e = some f) (a : InterpFacts Digest) :
    (∃ x ∈ t.insertOrIgnore r, x.facts = a) ↔ (∃ x ∈ t, x.facts = a) ∨ a = f := by
  obtain ⟨f', hf', ⟨fresh, -⟩ | ⟨p, hp, child, keyed⟩⟩ := offers_spec hr
  · obtain rfl : f = f' := Option.some.inj (hf.symm.trans hf')
    -- a row under the log id of `f` is `f`, for two different ones would conflict
    refine exists_facts_insert fresh (fun p hp same => ?_) a
    obtain ⟨e', he', hf'⟩ := h.source hl hp
    by_contra ne
    exact free (.rows he' he hf' hf same ne)
  · obtain rfl : f = f' := Option.some.inj (hf.symm.trans hf')
    -- the parent is a row of the set, so it is the response's own orphan row
    obtain ⟨e', he', hp'⟩ := h.source hl hp
    have own : p.facts = f := by
      by_contra ne
      exact free (.parent he he' hf hp' child (Ne.symm ne))
    obtain ⟨noKey, -, orphanId⟩ := offered_orphan hf child
    have key : p.interpKey = "" := (congrArg InterpFacts.interpKey own).trans noKey
    have logId : p.logId = r.logId :=
      calc p.logId = f.logId := congrArg InterpFacts.logId own
        _ = deriveLogId hash p.interpKey f.body := by rw [orphanId, key]
        _ = r.logId := (congrArg InterpFacts.logId keyed).symm
    rw [exists_facts_ignored hp logId, own]

/-- A revoke finds no row of its author. -/
theorem HoldsOffered.revoke (free : ¬ Conflict hash S muted E) (hl : ∀ x ∈ l, x.1 ∈ E)
    (h : HoldsOffered hash S muted t l) {revoker : Bytes32} {target : Digest}
    (he : .revoked revoker target ∈ E) (x : InterpRow Digest Sig) :
    x ∈ revokeInterp t target revoker ↔ x ∈ t := by
  have untouched : ∀ r ∈ t, r.revoke target revoker = r := by
    intro r hr
    obtain ⟨e', he', hf'⟩ := h.source hl hr
    apply if_neg
    intro hit
    obtain ⟨rfl, author, -⟩ := hit
    exact free (.revoke he he' hf' author)
  constructor
  · intro hx
    obtain ⟨r, hr, rfl⟩ := mem_revokeInterp.1 hx
    rwa [untouched r hr]
  · intro hx
    exact mem_revokeInterp.2 ⟨x, hx, untouched x hx⟩

theorem HoldsOffered.step (free : ¬ Conflict hash S muted E) (hl : ∀ x ∈ l, x.1 ∈ E)
    (h : HoldsOffered hash S muted t l) (he : e ∈ E) :
    HoldsOffered hash S muted (handleEvent hash S muted t (e, now)) (l ++ [(e, now)]) := by
  intro a
  have grown : (∃ x ∈ l ++ [(e, now)], offered hash S muted x.1 = some a) ↔
      (∃ x ∈ t, x.facts = a) ∨ offered hash S muted e = some a := by
    rw [h a]
    simp [or_and_right, exists_or]
  rw [grown]
  cases hf : offered hash S muted e with
  | some f =>
    cases hr : offers hash S muted t (e, now) with
    | none => exact absurd (offers_eq_none_iff.1 hr) (by simp [hf])
    | some r =>
      rw [handleEvent_of_offers hr, h.insert free hl he hr hf a]
      simp [eq_comm]
  | none =>
    have same : ∀ x, x ∈ handleEvent hash S muted t (e, now) ↔ x ∈ t := by
      cases e with
      | revoked revoker target => exact h.revoke free hl he
      | _ =>
        intro x
        rw [handleEvent_of_none (offers_eq_none_iff.2 hf) (by simp)]
    simp [same]

/-- Without a conflict the table is the union of what its events offer. -/
theorem holdsOffered_tableAfter (free : ¬ Conflict hash S muted E)
    (l : List (InterpEvent Digest Sig × ℕ)) (hl : ∀ x ∈ l, x.1 ∈ E) :
    HoldsOffered hash S muted (tableAfter hash S muted l) l := by
  induction l using List.reverseRecOn with
  | nil => intro f; simp
  | append_singleton l x ih =>
    have before : ∀ y ∈ l, y.1 ∈ E := fun y hy => hl y (List.mem_append_left _ hy)
    rw [tableAfter, exec_append]
    exact (ih before).step free before (hl x (by simp))

end Free

/-! ## Reads see the facts of the rows -/

/-- Tables with the same facts may return the same rows. -/
theorem sameReads_of_facts {t t' : Interpretations Digest Sig}
    (h : SameUnder InterpRow.facts t t') : SameReads t t' := by
  have key : ∀ r r' : InterpRow Digest Sig, r.facts = r'.facts → r.logId = r'.logId :=
    fun _ _ same => congrArg InterpFacts.logId same
  have forKey : ∀ k, ∀ r r' : InterpRow Digest Sig, r.facts = r'.facts →
      (decide (r.interpKey = k) && !r.revoked) = (decide (r'.interpKey = k) && !r'.revoked) := by
    intro k r r' same
    rw [show r.interpKey = r'.interpKey from congrArg InterpFacts.interpKey same,
      show r.revoked = r'.revoked from congrArg InterpFacts.revoked same]
  let rank (affirmations : Digest → ℕ) (f f' : InterpFacts Digest) : Prop :=
    f.isBaseline < f'.isBaseline ∨
      f.isBaseline = f'.isBaseline ∧ affirmations f'.logId ≤ affirmations f.logId
  refine ⟨h, ?_, fun affirmations k out => h.arranged key (forKey k) (rank affirmations), ?_, ?_⟩
  · rintro affirmations k body ⟨rows, arranged, rfl⟩
    obtain ⟨rows', arranged', same⟩ := h.arranged key (forKey k) (rank affirmations) arranged
    refine ⟨rows', arranged', ?_⟩
    have bodies := congrArg (fun fs => (fs.map InterpFacts.body).head?) same
    simpa [InterpRow.facts, Function.comp_def] using bodies.symm
  · intro affirmations keys limit out
    refine h.arranged key (fun r r' same => ?_)
      fun f f' => affirmations f'.logId ≤ affirmations f.logId
    rw [show r.interpKey = r'.interpKey from congrArg InterpFacts.interpKey same,
      show r.revoked = r'.revoked from congrArg InterpFacts.revoked same,
      show r.authorSig.isSome = r'.authorSig.isSome from congrArg InterpFacts.signed same,
      show r.isBaseline = r'.isBaseline from congrArg InterpFacts.isBaseline same]
  · rintro parent out ⟨sorted, perm, -, rfl⟩
    have matching := h.perm key (p := fun r => decide (r.parentLogId = some parent))
      fun r r' same => by
        rw [show r.parentLogId = r'.parentLogId from congrArg InterpFacts.parentLogId same]
    -- any arrangement by receive time will do
    let le := fun r r' : InterpRow Digest Sig => decide (r.receivedAt ≤ r'.receivedAt)
    let rows := t'.rows.filter fun r => decide (r.parentLogId = some parent)
    have order : (rows.mergeSort le).Pairwise fun r r' => r.receivedAt ≤ r'.receivedAt := by
      refine (List.pairwise_mergeSort ?_ ?_ rows).imp fun hab => by simpa [le] using hab
      · intro a b c hab hbc
        simp only [le, decide_eq_true_eq] at *
        omega
      · intro a b
        simp only [le, Bool.or_eq_true, decide_eq_true_eq]
        omega
    refine ⟨rows.mergeSort le, ⟨_, List.mergeSort_perm rows le, order, rfl⟩, ?_⟩
    exact (((List.mergeSort_perm rows le).map _).trans matching.symm).trans (perm.map _).symm

/-! ## What a conflict leaves behind -/

section Conflict

variable {t : Interpretations Digest Sig} {x : InterpEvent Digest Sig × ℕ}

theorem InterpRow.written_revoke (r : InterpRow Digest Sig) (id : Digest) (author : Bytes32) :
    (r.revoke id author).facts.written = r.facts.written := by
  rw [InterpRow.revoke_eq]
  rfl

/-- A row stays, and only its revoked flag may be set. -/
theorem handleEvent_keeps (hash : Hash Digest) (S : SignatureScheme Secret VerifyingKey Digest Sig)
    (muted : Bytes32 → Bool) (x : InterpEvent Digest Sig × ℕ) {r : InterpRow Digest Sig}
    (hr : r ∈ t) :
    ∃ r' ∈ handleEvent hash S muted t x,
      r'.facts.written = r.facts.written ∧ (r.revoked = true → r'.revoked = true) := by
  obtain ⟨e, now⟩ := x
  cases ho : offers hash S muted t (e, now) with
  | some row =>
    rw [handleEvent_of_offers ho]
    exact ⟨r, Table.mem_insertOrIgnore.2 (.inl hr), rfl, id⟩
  | none =>
    cases e with
    | revoked revoker target =>
      exact ⟨r.revoke target revoker, mem_revokeInterp.2 ⟨r, hr, rfl⟩,
        r.written_revoke target revoker, fun marked => InterpRow.revoked_revoke_iff.2 (.inl marked)⟩
    | _ =>
      rw [handleEvent_of_none ho (by simp)]
      exact ⟨r, hr, rfl, id⟩

theorem exec_keeps_row (hash : Hash Digest) (S : SignatureScheme Secret VerifyingKey Digest Sig)
    (muted : Bytes32 → Bool) (l : List (InterpEvent Digest Sig × ℕ)) {r : InterpRow Digest Sig}
    (hr : r ∈ t) :
    ∃ r' ∈ exec (handleEvent hash S muted) t l,
      r'.facts.written = r.facts.written ∧ (r.revoked = true → r'.revoked = true) := by
  induction l generalizing t r with
  | nil => exact ⟨r, hr, rfl, id⟩
  | cons x l ih =>
    obtain ⟨r', hr', same, flag⟩ := handleEvent_keeps hash S muted x hr
    obtain ⟨r'', hr'', same', flag'⟩ := ih hr'
    exact ⟨r'', hr'', same'.trans same, flag' ∘ flag⟩

/-- The first event of a run writes the row it offers to an empty table. -/
theorem handleEvent_first {e : InterpEvent Digest Sig} {f : InterpFacts Digest}
    (h : offered hash S muted e = some f) :
    ∃ r, r.facts = f ∧ r ∈ handleEvent hash S muted Table.empty (e, 0) := by
  obtain ⟨r, hr, rfl⟩ := Option.map_eq_some_iff.1 h
  refine ⟨r, rfl, ?_⟩
  rw [handleEvent_of_offers hr]
  exact Table.mem_insertOrIgnore.2 (.inr ⟨rfl, by simp [Table.Free]⟩)

/-- The row that a run's first event offers is there at the end. -/
theorem first_stays {e : InterpEvent Digest Sig} {f : InterpFacts Digest}
    (h : offered hash S muted e = some f) (l : List (InterpEvent Digest Sig × ℕ)) :
    ∃ r ∈ tableAfter hash S muted ((e, 0) :: l), r.facts.written = f := by
  obtain ⟨r, rfl, hr⟩ := handleEvent_first h
  obtain ⟨r', hr', same, -⟩ := exec_keeps_row hash S muted l hr
  exact ⟨r', hr', same.trans (InterpFacts.written_of_not_revoked (offered_revoked h))⟩

/-- The parent `f` is present, so the only orphan response to it is `f` itself. -/
def ParentPresent (f : InterpFacts Digest) (t : Interpretations Digest Sig) : Prop :=
  (∃ r ∈ t, r.logId = f.logId) ∧ ∀ r ∈ t, r.interpKind = "response_orphan" →
    r.parentLogId = some f.logId → r.facts.written = f

theorem ParentPresent.step {f : InterpFacts Digest} (h : ParentPresent f t) :
    ParentPresent f (handleEvent hash S muted t x) := by
  obtain ⟨e, now⟩ := x
  obtain ⟨⟨p, hp, hid⟩, orphans⟩ := h
  obtain ⟨p', hp', same, -⟩ := handleEvent_keeps hash S muted (e, now) hp
  have hid' : p'.logId = p.logId := congrArg InterpFacts.logId same
  refine ⟨⟨p', hp', hid'.trans hid⟩, ?_⟩
  cases ho : offers hash S muted t (e, now) with
  | some row =>
    rw [handleEvent_of_offers ho]
    intro r hr kind parent
    rcases Table.mem_insertOrIgnore.1 hr with old | ⟨rfl, -⟩
    · exact orphans r old kind parent
    · obtain ⟨g, -, ⟨fresh, absent⟩ | ⟨q, -, -, keyed⟩⟩ := offers_spec ho
      · have : g.parentLogId = some p.logId := by rw [← fresh, hid]; exact parent
        exact absurd this (absent p hp)
      · have : r.interpKind = "response" := congrArg InterpFacts.interpKind keyed
        exact absurd (kind.symm.trans this) (by decide)
  | none =>
    cases e with
    | revoked revoker target =>
      intro r hr kind parent
      obtain ⟨q, hq, rfl⟩ := mem_revokeInterp.1 hr
      have keep := q.written_revoke target revoker
      rw [keep]
      exact orphans q hq ((congrArg InterpFacts.interpKind keep).symm.trans kind)
        ((congrArg InterpFacts.parentLogId keep).symm.trans parent)
    | _ =>
      rw [handleEvent_of_none ho (by simp)]
      exact orphans

theorem ParentPresent.exec {f : InterpFacts Digest} (h : ParentPresent f t)
    (l : List (InterpEvent Digest Sig × ℕ)) :
    ParentPresent f (exec (handleEvent hash S muted) t l) :=
  exec_keeps (ParentPresent f) (fun _ _ present => present.step) h l

/-- An event that is no revoke sets no flag. -/
theorem handleEvent_unmarked (h : ∀ r ∈ t, r.revoked = false)
    (hx : ∀ revoker target, x.1 ≠ .revoked revoker target) :
    ∀ r ∈ handleEvent hash S muted t x, r.revoked = false := by
  obtain ⟨e, now⟩ := x
  cases ho : offers hash S muted t (e, now) with
  | none => rwa [handleEvent_of_none ho hx]
  | some row =>
    rw [handleEvent_of_offers ho]
    intro r hr
    rcases Table.mem_insertOrIgnore.1 hr with old | ⟨rfl, -⟩
    · exact h r old
    · obtain ⟨g, hg, ⟨fresh, -⟩ | ⟨q, -, -, keyed⟩⟩ := offers_spec ho
      · exact (congrArg InterpFacts.revoked fresh).trans (offered_revoked hg)
      · have flag : r.revoked = g.revoked := congrArg InterpFacts.revoked keyed
        exact flag.trans (offered_revoked hg)

theorem exec_unmarked {l : List (InterpEvent Digest Sig × ℕ)} (h : ∀ r ∈ t, r.revoked = false)
    (hl : ∀ x ∈ l, ∀ revoker target, x.1 ≠ .revoked revoker target) :
    ∀ r ∈ exec (handleEvent hash S muted) t l, r.revoked = false := by
  have keep : ∀ (t : Interpretations Digest Sig) (x : InterpEvent Digest Sig × ℕ),
      (∀ r ∈ t, r.revoked = false) → (∀ revoker target, x.1 ≠ .revoked revoker target) →
      ∀ r ∈ handleEvent hash S muted t x, r.revoked = false :=
    fun _ _ => handleEvent_unmarked
  exact exec_invariant keep h (Along.of_forall hl t)

/-- Revokes that come first find nothing. -/
theorem exec_revokes (l : List (InterpEvent Digest Sig × ℕ))
    (hl : ∀ x ∈ l, ∃ revoker target, x.1 = .revoked revoker target) (h : ∀ r, r ∉ t) :
    ∀ r, r ∉ exec (handleEvent hash S muted) t l := by
  induction l generalizing t with
  | nil => exact h
  | cons x l ih =>
    obtain ⟨e, now⟩ := x
    obtain ⟨revoker, target, rfl⟩ := hl _ (List.mem_cons_self)
    refine ih (fun y hy => hl y (by simp [hy])) fun r hr => ?_
    obtain ⟨q, hq, -⟩ := mem_revokeInterp.1 hr
    exact h q hq

end Conflict

/-! ## Every order, or a conflict -/

section Orders

variable {E : Finset (InterpEvent Digest Sig)}

/-- The events of the set in some order, each received at time zero. -/
private noncomputable def listing (E : Finset (InterpEvent Digest Sig)) :
    List (InterpEvent Digest Sig × ℕ) := E.toList.map fun e => (e, 0)

omit [DecidableEq Digest] in
theorem applies_front (front : List (InterpEvent Digest Sig × ℕ)) (h : ∀ x ∈ front, x.1 ∈ E) :
    Applies E (front ++ listing E) := by
  intro e
  constructor
  · rintro ⟨now, hx⟩
    rcases List.mem_append.1 hx with hf | hl
    · exact h _ hf
    · obtain ⟨a, ha, same⟩ := List.mem_map.1 hl
      obtain ⟨rfl, -⟩ := Prod.mk.inj same
      exact Finset.mem_toList.1 ha
  · intro he
    exact ⟨0, List.mem_append_right _ (by simp [listing, he])⟩

omit [DecidableEq Digest] in
/-- Rows that two tables share under one log id share all their facts. -/
theorem facts_eq_of_logId {t t' : Interpretations Digest Sig}
    (h : SameUnder InterpRow.facts t t') {r r' : InterpRow Digest Sig} (hr : r ∈ t)
    (hr' : r' ∈ t') (same : r.logId = r'.logId) : r.facts = r'.facts := by
  obtain ⟨q, hq, facts⟩ := (h r.facts).1 ⟨r, hr, rfl⟩
  have logId : q.logId = r.logId := congrArg InterpFacts.logId facts
  rw [← facts, Table.eq_of_key hq hr' (logId.trans same)]

/-- Two orders of the set leave different rows. -/
def OrderShows (hash : Hash Digest) (S : SignatureScheme Secret VerifyingKey Digest Sig)
    (muted : Bytes32 → Bool) (E : Finset (InterpEvent Digest Sig)) : Prop :=
  ∃ l l', Applies E l ∧ Applies E l' ∧
    ¬ SameUnder InterpRow.facts (tableAfter hash S muted l) (tableAfter hash S muted l')

/-- Whichever of two events comes first decides, when the rest cannot make up for it. -/
theorem orderShows_of_first {e e' : InterpEvent Digest Sig} (he : e ∈ E) (he' : e' ∈ E)
    (differ : ¬ SameUnder InterpRow.facts (tableAfter hash S muted ((e, 0) :: listing E))
      (tableAfter hash S muted ((e', 0) :: listing E))) : OrderShows hash S muted E :=
  ⟨_, _, applies_front [(e, 0)] (by simpa), applies_front [(e', 0)] (by simpa), differ⟩

/-- Of two rows under one log id the first one is kept. -/
theorem orderShows_of_rows {e e' : InterpEvent Digest Sig} {f f' : InterpFacts Digest}
    (he : e ∈ E) (he' : e' ∈ E) (hf : offered hash S muted e = some f)
    (hf' : offered hash S muted e' = some f') (same : f.logId = f'.logId) (ne : f ≠ f') :
    OrderShows hash S muted E := by
  apply orderShows_of_first he he'
  intro agree
  obtain ⟨r, hr, hrf⟩ := first_stays hf (listing E)
  obtain ⟨r', hr', hrf'⟩ := first_stays hf' (listing E)
  have logId : r.logId = f.logId := congrArg InterpFacts.logId hrf
  have logId' : r'.logId = f'.logId := congrArg InterpFacts.logId hrf'
  apply ne
  rw [← hrf, ← hrf', facts_eq_of_logId agree hr hr' (by rw [logId, logId', same])]

/-- With its first event the parent is present. -/
theorem parentPresent_first {e : InterpEvent Digest Sig} {f : InterpFacts Digest}
    (hf : offered hash S muted e = some f) :
    ParentPresent f (handleEvent hash S muted Table.empty (e, 0)) := by
  obtain ⟨p, hp, hmem⟩ := handleEvent_first hf
  refine ⟨⟨p, hmem, congrArg InterpFacts.logId hp⟩, fun s hs _ _ => ?_⟩
  obtain ⟨g, hg, rfl⟩ := Option.map_eq_some_iff.1 hf
  rw [handleEvent_of_offers hg] at hs
  rcases Table.mem_insertOrIgnore.1 hs with old | ⟨rfl, -⟩
  · exact absurd old (Table.not_mem_empty s)
  · exact InterpFacts.written_of_not_revoked (offered_revoked hf)

/-- A response before its parent stays an orphan, and after it is none. -/
theorem orderShows_of_parent {e e' : InterpEvent Digest Sig} {f f' : InterpFacts Digest}
    (he : e ∈ E) (he' : e' ∈ E) (hf : offered hash S muted e = some f)
    (hf' : offered hash S muted e' = some f') (child : f.parentLogId = some f'.logId)
    (ne : f ≠ f') : OrderShows hash S muted E := by
  apply orderShows_of_first he he'
  intro agree
  obtain ⟨r, hr, hrf⟩ := first_stays hf (listing E)
  obtain ⟨q, hq, facts⟩ := (agree r.facts).1 ⟨r, hr, rfl⟩
  have present : ParentPresent f' (tableAfter hash S muted ((e', 0) :: listing E)) :=
    (parentPresent_first hf').exec (listing E)
  have written : q.facts.written = f := by rw [facts, hrf]
  have orphan := offered_orphan hf child
  apply ne
  rw [← written]
  exact present.2 q hq ((congrArg InterpFacts.interpKind written).trans orphan.2.1)
    ((congrArg InterpFacts.parentLogId written).trans child)

/-- Whether the event is a revoke. -/
private def isRevoke : InterpEvent Digest Sig × ℕ → Bool
  | (.revoked _ _, _) => true
  | _ => false

/-- The events of the set, revokes first. -/
private noncomputable def revokesFirst (E : Finset (InterpEvent Digest Sig)) :
    List (InterpEvent Digest Sig × ℕ) :=
  (listing E).filter isRevoke ++ (listing E).filter fun x => !isRevoke x

/-- With the revokes first no row is marked. -/
theorem revokesFirst_unmarked :
    ∀ r ∈ tableAfter hash S muted (revokesFirst E), r.revoked = false := by
  have revokes : ∀ x ∈ (listing E).filter isRevoke,
      ∃ revoker target, x.1 = .revoked revoker target := by
    rintro ⟨e, now⟩ hx
    have is := (List.mem_filter.1 hx).2
    cases e with
    | revoked revoker target => exact ⟨revoker, target, rfl⟩
    | _ => cases is
  have others : ∀ x ∈ (listing E).filter (fun x => !isRevoke x),
      ∀ revoker target, x.1 ≠ .revoked revoker target := by
    rintro ⟨e, now⟩ hx revoker target rfl
    exact absurd (List.mem_filter.1 hx).2 Bool.false_ne_true
  rw [tableAfter, revokesFirst, exec_append]
  exact exec_unmarked (fun r hr => absurd hr (exec_revokes _ revokes Table.not_mem_empty r)) others

/-- A revoke after its row marks it, and before it finds nothing. -/
theorem orderShows_of_revoke {revoker : Bytes32} {e : InterpEvent Digest Sig}
    {f : InterpFacts Digest} (hr : .revoked revoker f.logId ∈ E) (he : e ∈ E)
    (hf : offered hash S muted e = some f) (author : f.authorPk = some revoker) :
    OrderShows hash S muted E := by
  have early : Applies E (revokesFirst E) := by
    have perm : (revokesFirst E).Perm (listing E) := List.filter_append_perm isRevoke (listing E)
    intro a
    simpa [perm.mem_iff] using applies_front (E := E) [] (by simp) a
  have late : Applies E ([(e, 0), (.revoked revoker f.logId, 0)] ++ listing E) :=
    applies_front _ (by simp [he, hr])
  refine ⟨_, _, early, late, fun agree => ?_⟩
  obtain ⟨r, rfl, hmem⟩ := handleEvent_first hf
  have marked : r.revoke r.logId revoker ∈
      handleEvent hash S muted (handleEvent hash S muted Table.empty (e, 0))
        (.revoked revoker r.logId, 0) := mem_revokeInterp.2 ⟨r, hmem, rfl⟩
  have flag : (r.revoke r.logId revoker).revoked = true := by
    have := offered_revoked hf
    simp only [InterpRow.facts] at author this
    simp [InterpRow.revoke, author, this]
  obtain ⟨q, hq, -, stays⟩ := exec_keeps_row hash S muted (listing E) marked
  obtain ⟨p, hp, same⟩ := (agree.symm q.facts).1 ⟨q, hq, rfl⟩
  have flags : p.revoked = q.revoked := congrArg InterpFacts.revoked same
  exact absurd ((revokesFirst_unmarked p hp).symm.trans (flags.trans (stays flag))) (by decide)

/-- The order of a conflict shows. -/
theorem Conflict.orders (h : Conflict hash S muted E) : OrderShows hash S muted E := by
  cases h with
  | rows he he' hf hf' same ne => exact orderShows_of_rows he he' hf hf' same ne
  | parent he he' hf hf' child ne => exact orderShows_of_parent he he' hf hf' child ne
  | revoke hr he hf author => exact orderShows_of_revoke hr he hf author

/-- A finite set of events leaves the same rows, and the same reads, in every order and
with any repetitions exactly when no two of its events conflict. -/
theorem tableAfter_order_free_iff (hash : Hash Digest)
    (S : SignatureScheme Secret VerifyingKey Digest Sig) (muted : Bytes32 → Bool)
    (E : Finset (InterpEvent Digest Sig)) :
    (∀ l l', Applies E l → Applies E l' →
        SameReads (tableAfter hash S muted l) (tableAfter hash S muted l')) ↔
      ¬ Conflict hash S muted E := by
  constructor
  · intro free conflict
    obtain ⟨l, l', hl, hl', differ⟩ := conflict.orders
    exact differ (free l l' hl hl').rows
  · intro free l l' hl hl'
    apply sameReads_of_facts
    intro f
    rw [holdsOffered_tableAfter free l (fun x hx => (hl x.1).1 ⟨x.2, hx⟩) f,
      holdsOffered_tableAfter free l' (fun x hx => (hl' x.1).1 ⟨x.2, hx⟩) f]
    constructor
    · rintro ⟨x, hx, hf⟩
      obtain ⟨now, hx'⟩ := (hl' x.1).2 ((hl x.1).1 ⟨x.2, hx⟩)
      exact ⟨_, hx', hf⟩
    · rintro ⟨x, hx, hf⟩
      obtain ⟨now, hx'⟩ := (hl x.1).2 ((hl' x.1).1 ⟨x.2, hx⟩)
      exact ⟨_, hx', hf⟩

/-- A response that overtakes its parent is filed as an orphan, and stays one. -/
theorem response_order_shows :
    let authored := InterpEvent.authored (Vector.replicate 32 1) "natal:sun_trine_moon" "calm"
    let response := InterpEvent.response (Vector.replicate 32 2)
      (deriveLogId id "natal:sun_trine_moon" "calm") "indeed"
    ¬ ∀ l l', Applies {authored, response} l → Applies {authored, response} l' →
      SameReads (tableAfter id symbolicSignatures (fun _ => false) l)
        (tableAfter id symbolicSignatures (fun _ => false) l') := by
  intro authored response free
  have conflict : Conflict id symbolicSignatures (fun _ => false) {authored, response} :=
    .parent (show response ∈ _ by simp) (show authored ∈ _ by simp) rfl rfl rfl
      fun same => absurd (congrArg InterpFacts.interpKind same) (by decide)
  obtain ⟨l, l', hl, hl', differ⟩ := conflict.orders
  exact differ (free l l' hl hl').rows

end Orders

end Zodia.Store
