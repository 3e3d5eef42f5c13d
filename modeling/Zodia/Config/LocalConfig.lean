import Zodia.Lib.Cbor
import Zodia.Lib.Run
import Zodia.Lib.Text

/-!
# The local configuration

The seed of the identity, the birth data and the display name, each in a file of its own. Saving
truncates the file and writes it anew, so a write that is cut short leaves the beginning of what
was to be written. The seed is written once, when there is no file for it yet.

## Main definitions

* `loadOrCreate` — what a start reads, and the seed it writes when there is none.
* `Device.step` — starts, saves and ends of the program, with writes that are cut short.
* `Kept` — what was last written to each file, and how much of it got there.

## Main results

* `Device.restart_eq` — what a start after any run gives, and that it is the same identity.
-/

namespace Zodia.Config

open Lib

/-! ## Files -/

/-- The bytes of the files; `none` is a file that does not exist. -/
structure DataDir where
  identityKey : Option Bytes
  birthCbor : Option Bytes
  displayName : Option Bytes

inductive ConfigError where
  | badLength (len : ℕ)
  | io
  | decode
  deriving DecidableEq

/-- How a write ends. If the file cannot be opened it stays as it was; else so many bytes get to it,
and the program may end there. A write that falls short without ending the program returns an
error, as one that is refused does. -/
inductive Outcome where
  | refused
  | wrote (written : ℕ) (died : Bool)

/-- What is put on file, and how much of it gets there. -/
def Outcome.record {α : Type} (a : α) : Outcome → Option (α × ℕ)
  | refused => none
  | wrote written _ => some (a, written)

/-- How birth data is written and read. A file that was cut short is not read. -/
structure BirthCodec (Birth : Type) where
  encode : Birth → Bytes
  decode : Bytes → Option Birth
  decode_encode : ∀ birth, decode (encode birth) = some birth
  decode_cut : ∀ birth n, n < (encode birth).length → decode ((encode birth).take n) = none

/-- One byte for each of two values. -/
example : BirthCodec Bool where
  encode b := [if b then 1 else 0]
  decode bytes := if bytes = [1] then some true else if bytes = [0] then some false else none
  decode_encode := by decide
  decode_cut := by
    intro b n short
    obtain rfl : n = 0 := by simpa using short
    rfl

structure LocalConfig (Birth : Type) where
  identity : Bytes32
  birth : Option Birth
  displayName : Option String

variable {Birth : Type}

/-- Load the seed, or write one that was generated. There is no result if the program ends. -/
def loadOrGenerate (path : Option Bytes) (generated : Bytes32) (o : Outcome) :
    Option Bytes × Option (Except ConfigError Bytes32) :=
  match path with
  | some bytes =>
    (some bytes, some (if h : bytes.length = 32 then .ok ⟨bytes.toArray, size_toArray_bytes h⟩
      else .error (.badLength bytes.length)))
  | none =>
    match o with
    | .refused => (none, some (.error .io))
    | .wrote written died =>
      (some (generated.toList.take written),
        if died then none
        else if written < 32 then some (.error .io)
        else some (.ok generated))

def loadIfPresent (B : BirthCodec Birth) (path : Option Bytes) :
    Except ConfigError (Option Birth) :=
  match path with
  | none => .ok none
  | some bytes =>
    match B.decode bytes with
    | some birth => .ok (some birth)
    | none => .error .decode

def trimmed (s : String) : String := String.ofList (trim s.toList)

/-- A name that is not there, not text or blank is no name. -/
def readDisplayName (path : Option Bytes) : Option String :=
  ((path.bind Value.readUtf8).map trimmed).filter fun s => !s.isEmpty

def loadOrCreate (B : BirthCodec Birth) (dir : DataDir) (generated : Bytes32) (o : Outcome) :
    DataDir × Option (Except ConfigError (LocalConfig Birth)) :=
  let (file, identity) := loadOrGenerate dir.identityKey generated o
  ({ dir with identityKey := file }, identity.map fun loaded => do
    let identity ← loaded
    let birth ← loadIfPresent B dir.birthCbor
    return ⟨identity, birth, readDisplayName dir.displayName⟩)

/-! ## The program -/

/-- What was last written to each file, with how many bytes of it got there. -/
structure Kept (Birth : Type) where
  seed : Option (Bytes32 × ℕ)
  birth : Option (Birth × ℕ)
  name : Option (String × ℕ)

/-- The files, the configuration of the program while it runs, and the history of the files. -/
structure Device (Birth : Type) where
  dir : DataDir
  running : Option (LocalConfig Birth)
  kept : Kept Birth

inductive ConfigEvent (Birth : Type) where
  | start (generated : Bytes32) (o : Outcome)
  | saveBirth (birth : Birth) (o : Outcome)
  | saveDisplayName (name : String) (o : Outcome)
  | quit

namespace Device

variable (B : BirthCodec Birth) (d : Device Birth)

/-- Nothing has been written yet. -/
def blank : Device Birth := ⟨⟨none, none, none⟩, none, ⟨none, none, none⟩⟩

def start (generated : Bytes32) (o : Outcome) : Device Birth :=
  let (dir, loaded) := loadOrCreate B d.dir generated o
  { dir := dir
    running := loaded.bind Except.toOption
    kept := { d.kept with seed := d.kept.seed.or (o.record generated) } }

/-- What becomes of the running program when a write of `len` bytes ends. -/
def afterWrite (len written : ℕ) (died : Bool) (before after : LocalConfig Birth) :
    Option (LocalConfig Birth) :=
  if died then none else if written < len then some before else some after

def saveBirth (birth : Birth) (o : Outcome) : Device Birth :=
  match d.running, o with
  | some config, .wrote written died =>
    let buf := B.encode birth
    { dir := { d.dir with birthCbor := some (buf.take written) }
      running := afterWrite buf.length written died config { config with birth := some birth }
      kept := { d.kept with birth := some (birth, written) } }
  | _, _ => d

def saveDisplayName (name : String) (o : Outcome) : Device Birth :=
  match d.running, o with
  | some config, .wrote written died =>
    let short := trimmed name
    { dir := { d.dir with displayName := some ((utf8 short).take written) }
      running := afterWrite (utf8 short).length written died config
        { config with displayName := if short.isEmpty then none else some short }
      kept := { d.kept with name := some (short, written) } }
  | _, _ => d

def step : ConfigEvent Birth → Device Birth
  | .start generated o => d.start B generated o
  | .saveBirth birth o => d.saveBirth B birth o
  | .saveDisplayName name o => d.saveDisplayName name o
  | .quit => { d with running := none }

end Device

/-! ## What a start gives -/

namespace Kept

variable (B : BirthCodec Birth) (k : Kept Birth)

/-- The seed, once its write was complete; a new one if none was written. -/
def identity (generated : Bytes32) : Except ConfigError Bytes32 :=
  match k.seed with
  | none => .ok generated
  | some (seed, written) => if written < 32 then .error (.badLength written) else .ok seed

/-- The birth data that was saved last, if its write was complete. -/
def savedBirth : Except ConfigError (Option Birth) :=
  match k.birth with
  | none => .ok none
  | some (birth, written) =>
    if written < (B.encode birth).length then .error .decode else .ok (some birth)

/-- The name that was saved last, or what is left of it. -/
def savedName : Option String :=
  match k.name with
  | none => none
  | some (name, written) =>
    if written < (utf8 name).length then readDisplayName (some ((utf8 name).take written))
    else if name.isEmpty then none else some name

/-- The configuration that the history of the files promises. -/
def restart (generated : Bytes32) : Except ConfigError (LocalConfig Birth) := do
  return ⟨← k.identity generated, ← k.savedBirth B, k.savedName⟩

end Kept

namespace Device

variable (B : BirthCodec Birth) (d : Device Birth)

/-- The files hold what the history says, and the program runs with the seed on file and with the
birth data on file, if it can be read. -/
structure Tracks : Prop where
  seed : d.dir.identityKey = d.kept.seed.map fun s => s.1.toList.take s.2
  birth : d.dir.birthCbor = d.kept.birth.map fun b => (B.encode b.1).take b.2
  name : d.dir.displayName = d.kept.name.map fun n => (utf8 n.1).take n.2
  short : ∀ n ∈ d.kept.name, trimmed n.1 = n.1
  running : ∀ c, d.running = some c → ∃ n, d.kept.seed = some (c.identity, n) ∧ 32 ≤ n
  agrees : ∀ c, d.running = some c → ∀ birth, d.kept.savedBirth B = .ok birth → c.birth = birth

variable {B d}

theorem blank_tracks : (blank : Device Birth).Tracks B :=
  ⟨rfl, rfl, rfl, by simp [blank], by simp [blank], by simp [blank]⟩

theorem take_seed {seed : Bytes32} {n : ℕ} (h : 32 ≤ n) : seed.toList.take n = seed.toList :=
  List.take_of_length_le (by simpa using h)

theorem loadIfPresent_eq (h : d.Tracks B) :
    loadIfPresent B d.dir.birthCbor = d.kept.savedBirth B := by
  rw [h.birth, Kept.savedBirth]
  cases d.kept.birth with
  | none => rfl
  | some saved =>
    obtain ⟨birth, written⟩ := saved
    simp only [Option.map_some, loadIfPresent]
    split_ifs with cut
    · rw [B.decode_cut birth written cut]
    · rw [List.take_of_length_le (not_lt.1 cut), B.decode_encode]

theorem readDisplayName_utf8 {name : String} (short : trimmed name = name) :
    readDisplayName (some (utf8 name)) = if name.isEmpty then none else some name := by
  simp only [readDisplayName, Option.bind_some, Value.readUtf8_utf8, Option.map_some, short,
    Option.filter_some]
  cases name.isEmpty <;> rfl

theorem readDisplayName_eq (h : d.Tracks B) :
    readDisplayName d.dir.displayName = d.kept.savedName := by
  rw [h.name, Kept.savedName]
  cases saved : d.kept.name with
  | none => rfl
  | some n =>
    obtain ⟨name, written⟩ := n
    have short : trimmed name = name := h.short (name, written) saved
    simp only [Option.map_some]
    split_ifs with cut empty
    · rfl
    · rw [List.take_of_length_le (not_lt.1 cut), readDisplayName_utf8 short, if_pos empty]
    · rw [List.take_of_length_le (not_lt.1 cut), readDisplayName_utf8 short, if_neg empty]

/-- What `load_or_generate` gives: the seed on file, or a new one if its write is complete. -/
theorem loadOrGenerate_eq (h : d.Tracks B) (generated : Bytes32) (o : Outcome) :
    loadOrGenerate d.dir.identityKey generated o =
      match d.kept.seed with
      | some (seed, written) =>
        (some (seed.toList.take written),
          some (if written < 32 then .error (.badLength written) else .ok seed))
      | none => loadOrGenerate none generated o := by
  rw [h.seed]
  cases d.kept.seed with
  | none => rfl
  | some s =>
    obtain ⟨seed, written⟩ := s
    simp only [Option.map_some, loadOrGenerate, List.length_take, Vector.length_toList]
    split_ifs with whole cut cut
    · omega
    · simp [take_seed (not_lt.1 cut), Vector.toArray_toList]
    · rw [min_eq_left (by omega)]
    · omega

/-- A start that does not end early gives what the history promises. -/
theorem loadOrCreate_eq (h : d.Tracks B) (generated : Bytes32) {written : ℕ}
    (whole : 32 ≤ written) :
    (loadOrCreate B d.dir generated (.wrote written false)).2 =
      some (d.kept.restart B generated) := by
  simp only [loadOrCreate, loadOrGenerate_eq h, loadIfPresent_eq h, readDisplayName_eq h,
    Kept.restart, Kept.identity]
  cases d.kept.seed with
  | none => simp [loadOrGenerate, not_lt.2 whole]
  | some s => rfl

/-- A start that gives a configuration gives it the seed and the birth data that were loaded. -/
theorem parts_of_loaded {dir : DataDir} {generated : Bytes32} {o : Outcome}
    {c : LocalConfig Birth}
    (loaded : (loadOrCreate B dir generated o).2.bind Except.toOption = some c) :
    (loadOrGenerate dir.identityKey generated o).2 = some (.ok c.identity) ∧
      loadIfPresent B dir.birthCbor = .ok c.birth := by
  simp only [loadOrCreate] at loaded
  cases result : (loadOrGenerate dir.identityKey generated o).2 with
  | none => simp [result] at loaded
  | some r =>
    cases r with
    | error e =>
      simp only [result, Option.map_some, Option.bind_some] at loaded
      cases loaded
    | ok seed =>
      simp only [result, Option.map_some, Option.bind_some] at loaded
      cases birth : loadIfPresent B dir.birthCbor with
      | error e => rw [birth] at loaded; cases loaded
      | ok b => rw [birth] at loaded; cases loaded; exact ⟨rfl, rfl⟩

theorem Tracks.start (h : d.Tracks B) (generated : Bytes32) (o : Outcome) :
    (d.start B generated o).Tracks B := by
  have loaded := loadOrGenerate_eq h generated o
  refine ⟨?_, h.birth, h.name, h.short, ?_, ?_⟩
  · simp only [Device.start, loadOrCreate, loaded]
    cases d.kept.seed <;> cases o <;> rfl
  · intro c running
    obtain ⟨identity, -⟩ := parts_of_loaded running
    rw [loaded] at identity
    change ∃ n, d.kept.seed.or (o.record generated) = some (c.identity, n) ∧ 32 ≤ n
    cases seed : d.kept.seed with
    | none =>
      cases o with
      | refused =>
        simp only [seed, loadOrGenerate] at identity
        cases Option.some.inj identity
      | wrote written died =>
        simp only [seed, loadOrGenerate] at identity
        split_ifs at identity with ended cut
        · cases Option.some.inj identity
        · obtain rfl := Except.ok.inj (Option.some.inj identity)
          exact ⟨written, rfl, not_lt.1 cut⟩
    | some s =>
      obtain ⟨first, written⟩ := s
      simp only [seed] at identity
      split_ifs at identity with cut
      · cases Option.some.inj identity
      · obtain rfl := Except.ok.inj (Option.some.inj identity)
        exact ⟨written, rfl, not_lt.1 cut⟩
  · intro c running birth saved
    obtain ⟨-, read⟩ := parts_of_loaded running
    rw [loadIfPresent_eq h] at read
    exact Except.ok.inj (read.symm.trans saved)

theorem afterWrite_eq_some {len written : ℕ} {died : Bool} {before after c : LocalConfig Birth}
    (runs : afterWrite len written died before after = some c) : c = before ∨ c = after := by
  unfold afterWrite at runs
  split_ifs at runs with ended cut
  · exact .inl (Option.some.inj runs).symm
  · exact .inr (Option.some.inj runs).symm

theorem trimmed_trimmed (s : String) : trimmed (trimmed s) = trimmed s := by
  simp [trimmed, trim_trim]

theorem Tracks.saveBirth (h : d.Tracks B) (birth : Birth) (o : Outcome) :
    (d.saveBirth B birth o).Tracks B := by
  unfold Device.saveBirth
  cases running : d.running with
  | none => exact h
  | some config =>
    cases o with
    | refused => exact h
    | wrote written died =>
      refine ⟨h.seed, rfl, h.name, h.short, fun c after => ?_, fun c after saved kept => ?_⟩
      · rcases afterWrite_eq_some after with same | same
        · rw [same]
          exact h.running config running
        · rw [same]
          exact h.running config running
      · simp only [Kept.savedBirth] at kept
        dsimp only at after
        unfold afterWrite at after
        split_ifs at kept after with cut ended
        · rw [← Option.some.inj after]
          exact Except.ok.inj kept

theorem Tracks.saveDisplayName (h : d.Tracks B) (name : String) (o : Outcome) :
    (d.saveDisplayName name o).Tracks B := by
  unfold Device.saveDisplayName
  cases running : d.running with
  | none => exact h
  | some config =>
    cases o with
    | refused => exact h
    | wrote written died =>
      refine ⟨h.seed, h.birth, rfl, by simp [trimmed_trimmed], fun c after => ?_,
        fun c after => ?_⟩
      · rcases afterWrite_eq_some after with same | same
        · rw [same]
          exact h.running config running
        · rw [same]
          exact h.running config running
      · rcases afterWrite_eq_some after with same | same
        · rw [same]
          exact h.agrees config running
        · rw [same]
          exact h.agrees config running

theorem Tracks.step (h : d.Tracks B) (e : ConfigEvent Birth) : (d.step B e).Tracks B := by
  cases e with
  | start generated o => exact h.start generated o
  | saveBirth birth o => exact h.saveBirth birth o
  | saveDisplayName name o => exact h.saveDisplayName name o
  | quit => exact ⟨h.seed, h.birth, h.name, h.short, by simp [Device.step], by simp [Device.step]⟩

theorem exec_tracks (es : List (ConfigEvent Birth)) : (exec (step B) blank es).Tracks B :=
  exec_keeps (fun d : Device Birth => d.Tracks B) (fun _ e h => h.step e) blank_tracks es

/-- The seed on file is the one that was written first. -/
theorem seed_step {s : Bytes32 × ℕ} (seed : d.kept.seed = some s) (e : ConfigEvent Birth) :
    (d.step B e).kept.seed = some s := by
  cases e with
  | start generated o => simp [Device.step, Device.start, seed]
  | saveBirth birth o =>
    change (d.saveBirth B birth o).kept.seed = some s
    unfold Device.saveBirth
    split <;> exact seed
  | saveDisplayName name o =>
    change (d.saveDisplayName name o).kept.seed = some s
    unfold Device.saveDisplayName
    split <;> exact seed
  | quit => exact seed

/-- What is shown of a name that was cut short is a prefix of it. -/
theorem Tracks.savedName_isPrefix (h : d.Tracks B) {shown : String}
    (saved : d.kept.savedName = some shown) :
    ∃ n, d.kept.name = some n ∧ shown.toList <+: n.1.toList := by
  rw [Kept.savedName] at saved
  cases name : d.kept.name with
  | none =>
    rw [name] at saved
    cases saved
  | some n =>
    refine ⟨n, rfl, ?_⟩
    simp only [name] at saved
    split_ifs at saved with cut empty
    · obtain ⟨whole, -⟩ := Option.filter_eq_some_iff.1 saved
      obtain ⟨s, read, rfl⟩ := Option.map_eq_some_iff.1 whole
      have short : trim n.1.toList = n.1.toList := by
        simpa [trimmed] using congrArg String.toList (h.short n name)
      simpa [trimmed] using trim_isPrefix (Value.isPrefix_of_readUtf8_take read) short
    · obtain rfl := Option.some.inj saved
      exact List.prefix_rfl

/-- In every run of starts, saves, crashes, failed writes and failed opens: a start gives the seed
that was written first, the birth data and the name that were saved last. It fails exactly if the
write of that seed, or the last write of birth data, was cut short; of a name that was cut short a
prefix is shown, or nothing. If the program ever ran, it was with that seed, and as it runs it has
the birth data that a start would give it. -/
theorem restart_eq (B : BirthCodec Birth) (es es' : List (ConfigEvent Birth))
    (generated : Bytes32) :
    (loadOrCreate B (exec (step B) blank (es ++ es')).dir generated (.wrote 32 false)).2 =
        some ((exec (step B) blank (es ++ es')).kept.restart B generated) ∧
      (∀ shown, (exec (step B) blank es).kept.savedName = some shown →
        ∃ n, (exec (step B) blank es).kept.name = some n ∧ shown.toList <+: n.1.toList) ∧
      ∀ c, (exec (step B) blank es).running = some c →
        (exec (step B) blank (es ++ es')).kept.identity generated = .ok c.identity ∧
          ∀ birth, (exec (step B) blank es).kept.savedBirth B = .ok birth → c.birth = birth := by
  refine ⟨loadOrCreate_eq (exec_tracks _) generated (le_refl 32), fun shown saved =>
    (exec_tracks es).savedName_isPrefix saved, fun c running => ⟨?_, ?_⟩⟩
  · obtain ⟨n, seed, whole⟩ := (exec_tracks es).running c running
    have kept := exec_keeps (fun d : Device Birth => d.kept.seed = some (c.identity, n))
      (fun d e h => seed_step (B := B) h e) seed es'
    rw [exec_append, Kept.identity, kept]
    simp [not_lt.2 whole]
  · exact (exec_tracks es).agrees c running

end Device

end Zodia.Config
