import Zodia.Core.Patterns
import Zodia.Lib.Query
import Zodia.Lib.Utf8

/-!
# The bundled texts

The baseline of `store/src/seed.rs`: six sections of texts, each under the part of a key's string
after the kind, put into one map under the whole string. The sections are written by
`tools/gen_baseline`, which asks a language model for a text for each key it enumerates and
writes the file again after each; a run may resume from the file of an earlier one.

The generator knows five of the six sections, so it drops the texts on angles when it writes.

## Main definitions

* `BaselineStore.fromData`, `BaselineStore.lookup` — the map and its lookup.
* `allKeys` — the keys the generator enumerates.
* `genBaseline` — a run of the generator.
* `InterpKey.Covered` — the keys that have a text once every text is there.

## Main results

* `baseline_lookup_iff` — a lookup finds the text of its own section and no other.
* `resumed_file` — what a resumed run leaves of the file.
* `lookup_complete_iff` — the keys a complete file has texts for.
-/

namespace Zodia.Store

open Lib Zodia.Core

/-! ## Sections -/

inductive BaselineSection where
  | natal
  | synastry
  | transit
  | houseTransit
  | placement
  | placementAngle
  deriving DecidableEq

namespace BaselineSection

def all : List BaselineSection :=
  [natal, synastry, transit, houseTransit, placement, placementAngle]

def name : BaselineSection → List Char
  | natal => "natal".toList
  | synastry => "synastry".toList
  | transit => "transit".toList
  | houseTransit => "house_transit".toList
  | placement => "placement".toList
  | placementAngle => "placement_angle".toList

theorem mem_all (s : BaselineSection) : s ∈ all := by cases s <;> decide

theorem not_mem_name (s : BaselineSection) : ':' ∉ s.name := by cases s <;> decide

theorem name_inj {s t : BaselineSection} (h : s.name = t.name) : s = t := by
  revert h
  cases s <;> cases t <;> decide

end BaselineSection

/-- The texts of one section. -/
abbrev BaselineTexts := Table fun e : List Char × List Char => e.1

/-- The parsed file: one map of texts a section. -/
abbrev BaselineData := BaselineSection → BaselineTexts

/-- The section of a key's kind, if there is one. -/
def sectionOf : InterpKey → Option BaselineSection
  | .natal _ => some .natal
  | .synastry _ => some .synastry
  | .transit _ _ _ => some .transit
  | .skyAspect _ => none
  | .houseTransit _ _ => some .houseTransit
  | .placement _ _ _ => some .placement
  | .placementAngle _ _ => some .placementAngle

theorem sectionOf_eq_some_iff {k : InterpKey} {s : BaselineSection} :
    sectionOf k = some s ↔ s.name = k.tag := by
  cases k <;> cases s <;> exact of_decide_eq_true rfl

/-! ## The map -/

/-- Read-only in-memory store for baseline interpretations. -/
abbrev BaselineStore := List Char → Option (List Char)

/-- The string of a key in a section. -/
def sectionSig (s : BaselineSection) (key : List Char) : List Char := s.name ++ ':' :: key

theorem sectionSig_inj {s t : BaselineSection} {key key' : List Char}
    (h : sectionSig s key = sectionSig t key') : s = t ∧ key = key' := by
  have parts := congrArg (splitOnce ':') h
  rw [sectionSig, sectionSig, splitOnce_append s.not_mem_name, splitOnce_append t.not_mem_name]
    at parts
  obtain ⟨names, keys⟩ := Prod.ext_iff.1 (Option.some.inj parts)
  exact ⟨BaselineSection.name_inj names, keys⟩

namespace BaselineStore

/-- The entries in the order in which they are inserted. -/
def entries (d : BaselineData) : List (List Char × List Char) :=
  BaselineSection.all.flatMap fun s => (d s).rows.map fun e => (sectionSig s e.1, e.2)

/-- Build from parsed data. -/
def fromData (d : BaselineData) : BaselineStore := collect (entries d)

/-- The baseline text for a key, if present. -/
def lookup (b : BaselineStore) (k : InterpKey) : Option (List Char) := b k.toSig

theorem mem_entries {d : BaselineData} {e : List Char × List Char} :
    e ∈ entries d ↔ ∃ s key, e.1 = sectionSig s key ∧ (key, e.2) ∈ d s := by
  simp only [entries, List.mem_flatMap, List.mem_map]
  constructor
  · rintro ⟨s, -, ⟨key, text⟩, mem, rfl⟩
    exact ⟨s, key, rfl, mem⟩
  · rintro ⟨s, key, same, mem⟩
    exact ⟨s, s.mem_all, (key, e.2), mem, by rw [← same]⟩

theorem nodup_entries (d : BaselineData) : ((entries d).map Prod.fst).Nodup := by
  rw [entries, List.map_flatMap, List.nodup_flatMap]
  constructor
  · intro s _
    have keys : ((d s).rows.map fun e => (sectionSig s e.1, e.2)).map Prod.fst =
        ((d s).rows.map fun e => e.1).map (sectionSig s) := by
      simp [Function.comp_def]
    rw [keys]
    exact (d s).nodup.map fun key key' same => (sectionSig_inj same).2
  · have distinct : BaselineSection.all.Nodup := by decide
    refine distinct.imp fun {s t} ne => ?_
    rw [Function.onFun, List.disjoint_left]
    intro sig hs ht
    simp only [List.map_map, List.mem_map] at hs ht
    obtain ⟨e, -, rfl⟩ := hs
    obtain ⟨e', -, same⟩ := ht
    exact ne (sectionSig_inj same).1.symm

theorem fromData_eq_some_iff {d : BaselineData} {sig text : List Char} :
    fromData d sig = some text ↔ ∃ s key, sig = sectionSig s key ∧ (key, text) ∈ d s := by
  have listed : (sig, text) ∈ entries d ↔ _ := mem_entries
  rw [← listed]
  exact ⟨mem_of_collect, collect_of_mem (nodup_entries d)⟩

end BaselineStore

/-- The part of a key's string after its kind. -/
def keyBody (k : InterpKey) : List Char := k.body fun house => Nat.toDigits 10 house

/-- A lookup finds what the section of the key's kind holds under the rest of its string, whatever
the sections hold and in whatever order they are read. -/
theorem baseline_lookup_iff (d : BaselineData) (k : InterpKey) (text : List Char) :
    BaselineStore.lookup (.fromData d) k = some text ↔
      ∃ s, sectionOf k = some s ∧ (keyBody k, text) ∈ d s := by
  have whole : k.toSig = k.tag ++ ':' :: keyBody k := k.sigWith_eq _
  rw [BaselineStore.lookup, BaselineStore.fromData_eq_some_iff, whole]
  constructor
  · rintro ⟨s, key, same, mem⟩
    have parts := congrArg (splitOnce ':') same
    rw [sectionSig, splitOnce_append k.not_mem_tag, splitOnce_append s.not_mem_name] at parts
    obtain ⟨tag, rfl⟩ := Prod.ext_iff.1 (Option.some.inj parts)
    exact ⟨s, sectionOf_eq_some_iff.2 tag.symm, mem⟩
  · rintro ⟨s, own, mem⟩
    exact ⟨s, keyBody k, by rw [sectionSig, sectionOf_eq_some_iff.1 own], mem⟩

/-! ## The keys of the generator -/

def sortedSig (p : Planet) (asp : AspectKind) (q : Planet) : List Char := aspectSig p q asp

/-- The keys of the aspects of two bodies, without the order of the two. -/
def pairKeys (s : BaselineSection) : List (BaselineSection × List Char) :=
  (pairs Planet.all).flatMap fun pq =>
    AspectKind.all.map fun asp => (s, sortedSig pq.1 asp pq.2)

/-- The numbers of the houses. -/
def houseNumbers : List ℕ := (List.range 12).map (· + 1)

/-- The keys of the aspects of a transiting body to a natal one. -/
def transitKeys : List (BaselineSection × List Char) :=
  Planet.all.flatMap fun tr => Planet.all.flatMap fun nat => AspectKind.all.map fun asp =>
    (.transit, tr.name ++ '_' :: (asp.name ++ '_' :: nat.name))

def houseTransitKeys : List (BaselineSection × List Char) :=
  Planet.all.flatMap fun planet => houseNumbers.map fun house =>
    (.houseTransit, planet.name ++ ':' :: Nat.toDigits 10 house)

def placementKeys : List (BaselineSection × List Char) :=
  Planet.all.flatMap fun planet => signs.flatMap fun sign => houseNumbers.map fun house =>
    (.placement, planet.name ++ ':' :: (signNameLower sign ++ ':' :: Nat.toDigits 10 house))

def allKeys : List (BaselineSection × List Char) :=
  pairKeys .natal ++ pairKeys .synastry ++ transitKeys ++ houseTransitKeys ++ placementKeys

/-! ## A run of the generator -/

/-- What the model answers to each of the attempts for a key. -/
abbrev Attempts := BaselineSection → List Char → ℕ → Option (List Char)

/-- The first of three answers that is long enough. -/
def acceptedText (attempts : Attempts) (s : BaselineSection) (key : List Char) :
    Option (List Char) :=
  (List.range 3).findSome? fun attempt =>
    (attempts s key attempt).bind fun text => if 20 ≤ utf8Len text then some text else none

/-- The texts so far, and the file. -/
structure GenState where
  baseline : BaselineData
  file : BaselineData

/-- One key: nothing if it has a text, else the text goes into its section and the file is
written. -/
def genStep (attempts : Attempts) (st : GenState) (e : BaselineSection × List Char) : GenState :=
  if ((st.baseline e.1).find? e.2).isSome then st
  else
    match acceptedText attempts e.1 e.2 with
    | none => st
    | some text =>
      let baseline := Function.update st.baseline e.1 ((st.baseline e.1).insertOrIgnore (e.2, text))
      ⟨baseline, baseline⟩

/-- What the generator reads of a file: it has no section for angles. -/
def readGenerated (file : BaselineData) : BaselineData :=
  Function.update file .placementAngle Table.empty

/-- The file after a run. -/
def genBaseline (resume : Bool) (file : BaselineData) (attempts : Attempts) : BaselineData :=
  let start : BaselineData := if resume then readGenerated file else fun _ => Table.empty
  (allKeys.foldl (genStep attempts) ⟨start, file⟩).file

/-! ## What a run leaves -/

section Run

variable {attempts : Attempts}

/-- The entry that a run adds for a key without a text. -/
def generatedEntry (attempts : Attempts) (s : BaselineSection) (key : List Char) :
    Option (List Char × List Char) := (acceptedText attempts s key).map fun text => (key, text)

/-- The key has no text, and the run gets one for it. -/
def Generates (attempts : Attempts) (d : BaselineData) (e : BaselineSection × List Char) : Prop :=
  (d e.1).find? e.2 = none ∧ (acceptedText attempts e.1 e.2).isSome

theorem genStep_of_not_generates {st : GenState} {e : BaselineSection × List Char}
    (h : ¬ Generates attempts st.baseline e) : genStep attempts st e = st := by
  unfold genStep
  split_ifs with known
  · rfl
  · have missing : (st.baseline e.1).find? e.2 = none := by simpa using known
    have none : acceptedText attempts e.1 e.2 = none := by
      simpa using fun some => h ⟨missing, some⟩
    simp [none]

theorem genStep_of_generates {st : GenState} {e : BaselineSection × List Char}
    (h : Generates attempts st.baseline e) :
    ∃ text, acceptedText attempts e.1 e.2 = some text ∧
      (genStep attempts st e).file = (genStep attempts st e).baseline ∧
      (genStep attempts st e).baseline =
        Function.update st.baseline e.1 ((st.baseline e.1).insertOrIgnore (e.2, text)) := by
  obtain ⟨text, answer⟩ := Option.isSome_iff_exists.1 h.2
  have step : genStep attempts st e =
      ⟨Function.update st.baseline e.1 ((st.baseline e.1).insertOrIgnore (e.2, text)),
        Function.update st.baseline e.1 ((st.baseline e.1).insertOrIgnore (e.2, text))⟩ := by
    simp [genStep, h.1, answer]
  exact ⟨text, answer, by rw [step], by rw [step]⟩

/-- A step gives its own key a text if it has none. -/
theorem genStep_find? (st : GenState) (e : BaselineSection × List Char) (s : BaselineSection)
    (key : List Char) :
    ((genStep attempts st e).baseline s).find? key =
      ((st.baseline s).find? key).or
        (if (s, key) = e then generatedEntry attempts s key else none) := by
  by_cases generates : Generates attempts st.baseline e
  · obtain ⟨text, answer, -, after⟩ := genStep_of_generates generates
    have free : (st.baseline e.1).Free e.2 := Table.find?_eq_none.1 generates.1
    rw [after]
    split_ifs with same
    · subst same
      rw [Function.update_self, Table.find?_insertOrIgnore free, if_pos rfl, generates.1]
      simp [generatedEntry, answer]
    · by_cases own : s = e.1
      · subst own
        have other : e.2 ≠ key := fun same' => same (by rw [← same'])
        rw [Function.update_self, Table.find?_insertOrIgnore free, if_neg other, Option.or_none]
      · rw [Function.update_of_ne own, Option.or_none]
  · rw [genStep_of_not_generates generates]
    split_ifs with same
    · subst same
      cases known : (st.baseline s).find? key with
      | some entry => rfl
      | none =>
        have none : acceptedText attempts s key = none := by
          simpa using fun some => generates ⟨known, some⟩
        simp [generatedEntry, none]
    · rw [Option.or_none]

/-- A run keeps every text and adds the answers for the keys without one. -/
theorem foldl_genStep_find? (keys : List (BaselineSection × List Char)) (st : GenState)
    (s : BaselineSection) (key : List Char) :
    ((keys.foldl (genStep attempts) st).baseline s).find? key =
      ((st.baseline s).find? key).or
        (if (s, key) ∈ keys then generatedEntry attempts s key else none) := by
  induction keys generalizing st with
  | nil => simp
  | cons e keys ih =>
    rw [List.foldl_cons, ih, genStep_find?, Option.or_assoc]
    congr 1
    by_cases first : (s, key) = e
    · cases answer : generatedEntry attempts s key <;> simp [first]
    · by_cases later : (s, key) ∈ keys <;> simp [first, later]

/-- The file is written with every text the run gets, so it is behind only while there is none. -/
theorem foldl_genStep_file (keys : List (BaselineSection × List Char)) (st : GenState) :
    let st' := keys.foldl (genStep attempts) st
    ((∃ e ∈ keys, Generates attempts st.baseline e) → st'.file = st'.baseline) ∧
      ((∀ e ∈ keys, ¬ Generates attempts st.baseline e) → st' = st) := by
  have synced (keys : List (BaselineSection × List Char)) {st : GenState}
      (same : st.file = st.baseline) :
      (keys.foldl (genStep attempts) st).file = (keys.foldl (genStep attempts) st).baseline := by
    induction keys generalizing st with
    | nil => exact same
    | cons e keys ih =>
      refine ih ?_
      by_cases generates : Generates attempts st.baseline e
      · exact (genStep_of_generates generates).choose_spec.2.1
      · rwa [genStep_of_not_generates generates]
  induction keys generalizing st with
  | nil => exact ⟨by simp, fun _ => rfl⟩
  | cons e keys ih =>
    dsimp only [List.foldl_cons]
    by_cases generates : Generates attempts st.baseline e
    · refine ⟨fun _ => synced keys (genStep_of_generates generates).choose_spec.2.1, fun none => ?_⟩
      exact absurd generates (none e List.mem_cons_self)
    · rw [genStep_of_not_generates generates]
      have tail := ih st
      dsimp only at tail
      constructor
      · rintro ⟨e', mem, later⟩
        rcases List.mem_cons.1 mem with rfl | mem
        · exact absurd later generates
        · exact tail.1 ⟨e', mem, later⟩
      · exact fun none => tail.2 fun e' mem => none e' (List.mem_cons_of_mem e mem)

end Run

/-! ## The keys that are enumerated -/

theorem mem_pairKeys {s t : BaselineSection} {key : List Char} :
    (s, key) ∈ pairKeys t ↔ s = t ∧ ∃ p q asp, p ≠ q ∧ key = aspectSig p q asp := by
  have distinct : Planet.all.Nodup := by decide
  simp only [pairKeys, List.mem_flatMap, List.mem_map, Prod.exists, Prod.mk.injEq]
  constructor
  · rintro ⟨p, q, mem, asp, -, rfl, rfl⟩
    have nodup := distinct.sublist (mem_pairs.1 mem)
    exact ⟨rfl, p, q, asp, by simpa using nodup, rfl⟩
  · rintro ⟨rfl, p, q, asp, ne, rfl⟩
    rcases mem_pairs_or (p.mem_all) (q.mem_all) ne with mem | mem
    · exact ⟨p, q, mem, asp, asp.mem_all, rfl, rfl⟩
    · refine ⟨q, p, mem, asp, asp.mem_all, rfl, ?_⟩
      rw [sortedSig, aspectSig, aspectSig, sortedNames_comm]

theorem mem_houseNumbers {n : ℕ} : n ∈ houseNumbers ↔ 1 ≤ n ∧ n ≤ 12 := by
  simp only [houseNumbers, List.mem_map, List.mem_range]
  constructor
  · rintro ⟨i, lt, rfl⟩
    omega
  · rintro ⟨le, le'⟩
    exact ⟨n - 1, by omega, by omega⟩

theorem mem_transitKeys {s : BaselineSection} {key : List Char} :
    (s, key) ∈ transitKeys ↔
      s = .transit ∧ ∃ (p q : Planet) (asp : AspectKind),
        key = p.name ++ (asp.needle ++ q.name) := by
  simp only [transitKeys, List.mem_flatMap, List.mem_map, Prod.mk.injEq]
  constructor
  · rintro ⟨p, -, q, -, asp, -, rfl, rfl⟩
    exact ⟨rfl, p, q, asp, by simp [AspectKind.needle]⟩
  · rintro ⟨rfl, p, q, asp, rfl⟩
    exact ⟨p, p.mem_all, q, q.mem_all, asp, asp.mem_all, rfl, by simp [AspectKind.needle]⟩

theorem mem_houseTransitKeys {s : BaselineSection} {key : List Char} :
    (s, key) ∈ houseTransitKeys ↔ s = .houseTransit ∧
      ∃ (p : Planet) (n : ℕ), (1 ≤ n ∧ n ≤ 12) ∧ key = p.name ++ ':' :: Nat.toDigits 10 n := by
  simp only [houseTransitKeys, List.mem_flatMap, List.mem_map, mem_houseNumbers, Prod.mk.injEq]
  constructor
  · rintro ⟨p, -, n, number, rfl, rfl⟩
    exact ⟨rfl, p, n, number, rfl⟩
  · rintro ⟨rfl, p, n, number, rfl⟩
    exact ⟨p, p.mem_all, n, number, rfl, rfl⟩

theorem mem_placementKeys {s : BaselineSection} {key : List Char} :
    (s, key) ∈ placementKeys ↔ s = .placement ∧
      ∃ (p : Planet) (sign : Fin 256) (n : ℕ), sign.val < 12 ∧ (1 ≤ n ∧ n ≤ 12) ∧
        key = p.name ++ ':' :: (signNameLower sign ++ ':' :: Nat.toDigits 10 n) := by
  simp only [placementKeys, List.mem_flatMap, List.mem_map, mem_houseNumbers, mem_signs,
    Prod.mk.injEq]
  constructor
  · rintro ⟨p, -, sign, lt, n, number, rfl, rfl⟩
    exact ⟨rfl, p, sign, n, lt, number, rfl⟩
  · rintro ⟨rfl, p, sign, n, lt, number, rfl⟩
    exact ⟨p, p.mem_all, sign, lt, n, number, rfl, rfl⟩

theorem mem_allKeys {e : BaselineSection × List Char} :
    e ∈ allKeys ↔ e ∈ pairKeys .natal ∨ e ∈ pairKeys .synastry ∨ e ∈ transitKeys ∨
      e ∈ houseTransitKeys ∨ e ∈ placementKeys := by
  simp only [allKeys, List.mem_append, or_assoc]

theorem not_mem_allKeys_angle (key : List Char) : (.placementAngle, key) ∉ allKeys := by
  simp [mem_allKeys, mem_pairKeys, mem_transitKeys, mem_houseTransitKeys, mem_placementKeys]

/-- A run over any keys from a file that is read without the texts on angles. -/
theorem resumed_keys {keys : List (BaselineSection × List Char)} {attempts : Attempts}
    (angleless : ∀ key, (.placementAngle, key) ∉ keys) (file : BaselineData) :
    let file' := (keys.foldl (genStep attempts) ⟨readGenerated file, file⟩).file
    (∀ s key, s ≠ .placementAngle →
      (file' s).find? key = ((file s).find? key).or
        (if (s, key) ∈ keys then generatedEntry attempts s key else none)) ∧
    ((∃ e ∈ keys, Generates attempts (readGenerated file) e) →
      ∀ key, (file' .placementAngle).find? key = none) ∧
    ((∀ e ∈ keys, ¬ Generates attempts (readGenerated file) e) → file' = file) := by
  intro file'
  have unread {s : BaselineSection} (other : s ≠ .placementAngle) :
      readGenerated file s = file s := Function.update_of_ne other _ _
  have found := @foldl_genStep_find? attempts keys ⟨readGenerated file, file⟩
  have written := @foldl_genStep_file attempts keys ⟨readGenerated file, file⟩
  dsimp only at found written
  by_cases some : ∃ e ∈ keys, Generates attempts (readGenerated file) e
  · have same : file' = _ := written.1 some
    refine ⟨fun s key other => ?_, fun _ key => ?_, fun none => ?_⟩
    · rw [same, found, unread other]
    · rw [same, found, if_neg (angleless key)]
      simp [readGenerated, Table.find?, Table.empty]
    · obtain ⟨e, mem, generates⟩ := some
      exact absurd generates (none e mem)
  · have none : ∀ e ∈ keys, ¬ Generates attempts (readGenerated file) e :=
      fun e mem generates => some ⟨e, mem, generates⟩
    have same : file' = file := congrArg GenState.file (written.2 none)
    refine ⟨fun s key other => ?_, fun generates => absurd generates some, fun _ => same⟩
    rw [same]
    cases known : (file s).find? key with
    | some entry => rfl
    | none =>
      split_ifs with mem
      · have refused : acceptedText attempts s key = Option.none := by
          simpa using fun answer => none (s, key) mem ⟨by rw [unread other, known], answer⟩
        simp [generatedEntry, refused]
      · rfl

/-- A resumed run keeps every text of the file but those on angles and adds the answers for the
keys it enumerates; the texts on angles are lost as soon as there is one answer. -/
theorem resumed_file (file : BaselineData) (attempts : Attempts) :
    (∀ s key, s ≠ .placementAngle →
      (genBaseline true file attempts s).find? key =
        ((file s).find? key).or
          (if (s, key) ∈ allKeys then generatedEntry attempts s key else none)) ∧
    ((∃ e ∈ allKeys, Generates attempts (readGenerated file) e) →
      ∀ key, (genBaseline true file attempts .placementAngle).find? key = none) ∧
    ((∀ e ∈ allKeys, ¬ Generates attempts (readGenerated file) e) →
      genBaseline true file attempts = file) := by
  rw [genBaseline, if_pos rfl]
  exact resumed_keys not_mem_allKeys_angle file

/-- A fresh run over any keys that all get a text. -/
theorem fresh_keys {keys : List (BaselineSection × List Char)} {attempts : Attempts}
    (nonempty : keys ≠ []) (answered : ∀ e ∈ keys, (acceptedText attempts e.1 e.2).isSome)
    (file : BaselineData) (s : BaselineSection) (key : List Char) :
    (((keys.foldl (genStep attempts) ⟨fun _ => Table.empty, file⟩).file s).find? key).isSome ↔
      (s, key) ∈ keys := by
  have vacant (key : List Char) : (Table.empty : BaselineTexts).find? key = none := by
    simp [Table.find?, Table.empty]
  obtain ⟨e, mem⟩ := List.exists_mem_of_ne_nil keys nonempty
  have generates : ∃ e ∈ keys, Generates attempts (fun _ => Table.empty) e :=
    ⟨e, mem, vacant e.2, answered e mem⟩
  have written := (@foldl_genStep_file attempts keys ⟨fun _ => Table.empty, file⟩).1 generates
  have found := @foldl_genStep_find? attempts keys ⟨fun _ => Table.empty, file⟩ s key
  dsimp only at written found
  rw [written, found, vacant, Option.none_or]
  split_ifs with listed
  · simpa [generatedEntry, listed] using answered (s, key) listed
  · simpa using listed

theorem allKeys_ne_nil : allKeys ≠ [] := by
  have mem : (.transit, Planet.sun.name ++ (AspectKind.conjunction.needle ++ Planet.sun.name)) ∈
      allKeys := by
    rw [mem_allKeys, mem_transitKeys]
    exact .inr (.inr (.inl ⟨rfl, .sun, .sun, .conjunction, rfl⟩))
  exact List.ne_nil_of_mem mem

theorem fresh_file {attempts : Attempts}
    (answered : ∀ e ∈ allKeys, (acceptedText attempts e.1 e.2).isSome) (file : BaselineData)
    (s : BaselineSection) (key : List Char) :
    ((genBaseline false file attempts s).find? key).isSome ↔ (s, key) ∈ allKeys := by
  rw [genBaseline, if_neg Bool.false_ne_true]
  exact fresh_keys allKeys_ne_nil answered file s key

/-! ## Coverage -/

/-- The keys that have a text in a complete file. -/
def Covered : InterpKey → Prop
  | .natal sig | .synastry sig => ∃ p q asp, p ≠ q ∧ sig = aspectSig p q asp
  | .transit _ _ _ => True
  | .houseTransit _ house | .placement _ _ (some house) => 1 ≤ house.val ∧ house.val ≤ 12
  | .skyAspect _ | .placement _ _ none | .placementAngle _ _ => False

/-- Only the name of a sign is part of a key's string. -/
theorem signNameLower_mod (sign : Fin 256) :
    ∃ sign' : Fin 256, sign'.val < 12 ∧ signNameLower sign' = signNameLower sign := by
  refine ⟨⟨sign.val % 12, by omega⟩, Nat.mod_lt _ (by omega), ?_⟩
  simp [signNameLower]

/-- After texts without a colon, the digits of a number are that of the number. -/
theorem append_digits_inj {a b : List Char} {m n : ℕ} (ha : ':' ∉ a) (hb : ':' ∉ b)
    (h : a ++ ':' :: Nat.toDigits 10 m = b ++ ':' :: Nat.toDigits 10 n) : m = n := by
  have parts := congrArg (splitOnce ':') h
  rw [splitOnce_append ha, splitOnce_append hb] at parts
  exact Decimal.toDigits_inj (Prod.ext_iff.1 (Option.some.inj parts)).2

theorem covered_iff {k : InterpKey} :
    Covered k ↔ ∃ s, sectionOf k = some s ∧ (s, keyBody k) ∈ allKeys := by
  simp only [mem_allKeys, mem_pairKeys, mem_transitKeys, mem_houseTransitKeys, mem_placementKeys]
  cases k with
  | natal sig =>
    constructor
    · exact fun covered => ⟨.natal, rfl, .inl ⟨rfl, covered⟩⟩
    · rintro ⟨s, own, mem⟩
      obtain rfl := Option.some.inj own
      simpa [Covered, keyBody, InterpKey.body] using mem
  | synastry sig =>
    constructor
    · exact fun covered => ⟨.synastry, rfl, .inr (.inl ⟨rfl, covered⟩)⟩
    · rintro ⟨s, own, mem⟩
      obtain rfl := Option.some.inj own
      simpa [Covered, keyBody, InterpKey.body] using mem
  | transit p q kind =>
    exact iff_of_true trivial ⟨.transit, rfl, .inr (.inr (.inl ⟨rfl, p, q, kind, rfl⟩))⟩
  | skyAspect sig => simp [Covered, sectionOf]
  | houseTransit p house =>
    constructor
    · exact fun number => ⟨.houseTransit, rfl,
        .inr (.inr (.inr (.inl ⟨rfl, p, house.val, number, rfl⟩)))⟩
    · rintro ⟨s, own, mem⟩
      obtain rfl := Option.some.inj own
      obtain ⟨p', n, number, same⟩ : ∃ (p' : Planet) (n : ℕ), (1 ≤ n ∧ n ≤ 12) ∧
          keyBody (.houseTransit p house) = p'.name ++ ':' :: Nat.toDigits 10 n := by
        simpa using mem
      rw [← append_digits_inj p.not_mem_name.1 p'.not_mem_name.1 same] at number
      exact number
  | placement p sign house =>
    constructor
    · intro covered
      cases house with
      | none => exact covered.elim
      | some house =>
        obtain ⟨sign', lt, same⟩ := signNameLower_mod sign
        refine ⟨.placement, rfl,
          .inr (.inr (.inr (.inr ⟨rfl, p, sign', house.val, lt, covered, ?_⟩)))⟩
        rw [same]
        rfl
    · rintro ⟨s, own, mem⟩
      obtain rfl := Option.some.inj own
      obtain ⟨p', sign', lt, n, number, same⟩ : ∃ (p' : Planet) (sign' : Fin 256),
          sign'.val < 12 ∧ ∃ n : ℕ, (1 ≤ n ∧ n ≤ 12) ∧ keyBody (.placement p sign house) =
            p'.name ++ ':' :: (signNameLower sign' ++ ':' :: Nat.toDigits 10 n) := by
        simpa using mem
      have noColon : ':' ∉ signNameLower sign := by
        obtain ⟨sign'', lt', name⟩ := signNameLower_mod sign
        exact name ▸ not_mem_signNameLower lt'
      have cut := congrArg (splitOnce ':') same
      rw [splitOnce_append p'.not_mem_name.1] at cut
      cases house with
      | none =>
        have rest := cut.symm.trans (splitOnce_append p.not_mem_name.1 (signNameLower sign))
        have signs := (Prod.ext_iff.1 (Option.some.inj rest)).2
        dsimp only at signs
        rw [← signs] at noColon
        simp at noColon
      | some house =>
        have rest := cut.symm.trans (splitOnce_append p.not_mem_name.1
          (signNameLower sign ++ ':' :: Nat.toDigits 10 house.val))
        have digits := append_digits_inj (not_mem_signNameLower lt) noColon
          (Prod.ext_iff.1 (Option.some.inj rest)).2
        rw [digits] at number
        exact number
  | placementAngle angle sign => simp [Covered, sectionOf]

/-! ## A complete file -/

/-- A file in which every enumerated key got a text has texts for the covered keys and no others:
for every aspect of a chart, and for the aspects between two charts but those of a planet with its
namesake. -/
theorem lookup_complete_iff (file : BaselineData) {attempts : Attempts}
    (answered : ∀ e ∈ allKeys, (acceptedText attempts e.1 e.2).isSome) :
    (∀ k, (BaselineStore.lookup (.fromData (genBaseline false file attempts)) k).isSome ↔
      Covered k) ∧
    (∀ positions, ∀ aspect ∈ computeAspects positions, Covered (.natal aspect.sig)) ∧
    (∀ aspect : SynastryAspect, Covered (.synastry aspect.sig) ↔ aspect.bodyA ≠ aspect.bodyB) := by
  refine ⟨fun k => ?_, fun positions aspect mem => ?_, fun aspect => ?_⟩
  · rw [covered_iff, Option.isSome_iff_exists]
    constructor
    · rintro ⟨text, found⟩
      obtain ⟨s, own, mem⟩ := (baseline_lookup_iff _ k text).1 found
      refine ⟨s, own, (fresh_file answered file s _).1 ?_⟩
      rw [Table.find?_eq_some.2 ⟨mem, rfl⟩]
      rfl
    · rintro ⟨s, own, listed⟩
      obtain ⟨⟨key, text⟩, found⟩ :=
        Option.isSome_iff_exists.1 ((fresh_file answered file s _).2 listed)
      obtain ⟨mem, rfl⟩ := Table.find?_eq_some.1 found
      exact ⟨text, (baseline_lookup_iff _ k text).2 ⟨s, own, mem⟩⟩
  · have apart := (isSimple_computeAspects positions).1 aspect mem
    exact ⟨aspect.bodyA, aspect.bodyB, aspect.kind, apart, rfl⟩
  · constructor
    · rintro ⟨p, q, asp, ne, same⟩ equal
      rcases aspectSig_inj same with ⟨rfl, rfl⟩ | ⟨rfl, rfl⟩
      · exact ne equal
      · exact ne equal.symm
    · exact fun ne => ⟨aspect.bodyA, aspect.bodyB, aspect.kind, ne, rfl⟩

theorem acceptedText_same {text : List Char} (long : 20 ≤ utf8Len text) (s : BaselineSection)
    (key : List Char) : acceptedText (fun _ _ _ => some text) s key = some text := by
  simp [acceptedText, List.range_succ, long]

/-- With a model that always answers the same long text, a fresh run leaves a text for the Sun in
the first house and none for a mundane aspect. -/
theorem lookup_complete_always :
    let file := genBaseline false (fun _ => Table.empty) fun _ _ _ => some (List.replicate 20 'a')
    (BaselineStore.lookup (.fromData file) (.houseTransit .sun 1)).isSome ∧
      ¬ (BaselineStore.lookup (.fromData file) (.skyAspect [])).isSome := by
  have answered : ∀ e ∈ allKeys,
      (acceptedText (fun _ _ _ => some (List.replicate 20 'a')) e.1 e.2).isSome := by
    intro e _
    rw [acceptedText_same (by decide +kernel)]
    rfl
  have covered := (lookup_complete_iff (fun _ => Table.empty) answered).1
  exact ⟨(covered _).2 ⟨by decide, by decide⟩, fun found => (covered _).1 found⟩

end Zodia.Store
