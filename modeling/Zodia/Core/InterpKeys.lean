import Zodia.Core.Aspects
import Zodia.Lib.Decimal
import Zodia.Lib.Text

/-!
# Interpretation keys

The keys of `core/src/interp.rs`: what an interpretation is about, the string it is stored under,
and the parser that reads such a string back.

## Main definitions

* `InterpKey`, `InterpKey.toSig`, `parseInterpSig`.
* `InterpKey.sigWith` — the string with the house number written in another way.
* `InterpKey.Parses` — the keys the parser knows.

## Main results

* `parseInterpSig_eq_some_iff` — what parses to a key is its string, up to the spelling of the
  house number.
* `sigs_canonical` — so every string that is read back names one key.
-/

namespace Zodia.Core

open Lib Decimal

/-! ## Names -/

namespace Planet

def all : List Planet :=
  [sun, moon, mercury, venus, mars, jupiter, saturn, uranus, neptune, pluto]

theorem mem_all (p : Planet) : p ∈ all := by cases p <;> decide

def name : Planet → List Char
  | sun => "sun".toList
  | moon => "moon".toList
  | mercury => "mercury".toList
  | venus => "venus".toList
  | mars => "mars".toList
  | jupiter => "jupiter".toList
  | saturn => "saturn".toList
  | uranus => "uranus".toList
  | neptune => "neptune".toList
  | pluto => "pluto".toList

/-- Reverse of `name`: parse a lowercase planet name. -/
def fromName (name : List Char) : Option Planet := all.find? fun p => p.name = name

theorem fromName_eq_some_iff {name : List Char} {p : Planet} :
    fromName name = some p ↔ name = p.name := by
  constructor
  · intro found
    have same := List.find?_some found
    exact (of_decide_eq_true same).symm
  · rintro rfl
    cases p <;> decide

theorem not_mem_name (p : Planet) : ':' ∉ p.name ∧ '_' ∉ p.name := by
  cases p <;> decide

end Planet

def AspectKind.name : AspectKind → List Char
  | conjunction => "conjunction".toList
  | semiSextile => "semi_sextile".toList
  | sextile => "sextile".toList
  | square => "square".toList
  | trine => "trine".toList
  | quincunx => "quincunx".toList
  | opposition => "opposition".toList

inductive Angle where
  | ascendant
  | midheaven
  deriving DecidableEq

/-- Lowercase short tag used in canonical sigs. -/
def Angle.tag : Angle → List Char
  | ascendant => "asc".toList
  | midheaven => "mc".toList

def signNames : List String :=
  ["aries", "taurus", "gemini", "cancer", "leo", "virgo", "libra", "scorpio", "sagittarius",
    "capricorn", "aquarius", "pisces"]

/-- Lowercase sign name for sig encoding. -/
def signNameLower (idx : Fin 256) : List Char := (signNames[idx.val % 12]?.getD "?").toList

/-- The sign indices `0..12`. -/
def signs : List (Fin 256) := (List.range 12).map (Fin.ofNat 256)

/-- A small number as a byte. -/
def toU8 (n : ℕ) : Fin 256 := Fin.ofNat 256 n

theorem val_toU8 (n : ℕ) : (toU8 n).val = n % 256 := Fin.val_ofNat 256 n

theorem mem_signs {sign : Fin 256} : sign ∈ signs ↔ sign.val < 12 := by
  simp only [signs, List.mem_map, List.mem_range]
  constructor
  · rintro ⟨i, lt, rfl⟩
    rw [Fin.val_ofNat]
    omega
  · intro lt
    exact ⟨sign.val, lt, Fin.ofNat_val_eq_self sign⟩

theorem find?_signs_eq_some_iff {name : List Char} {sign : Fin 256} :
    signs.find? (fun i => signNameLower i = name) = some sign ↔
      sign.val < 12 ∧ name = signNameLower sign := by
  constructor
  · intro found
    have same := List.find?_some found
    exact ⟨mem_signs.1 (List.mem_of_find?_eq_some found), (of_decide_eq_true same).symm⟩
  · rintro ⟨lt, rfl⟩
    have each : ∀ sign ∈ signs,
        signs.find? (fun i => signNameLower i = signNameLower sign) = some sign := by
      decide +kernel
    exact each sign (mem_signs.2 lt)

theorem not_mem_signNameLower {sign : Fin 256} (lt : sign.val < 12) : ':' ∉ signNameLower sign := by
  have each : ∀ sign ∈ signs, ':' ∉ signNameLower sign := by decide +kernel
  exact each sign (mem_signs.2 lt)

/-! ## Keys and their strings -/

/-- Fully qualified key for a community interpretation entry. -/
inductive InterpKey where
  | natal (aspectSig : List Char)
  | synastry (aspectSig : List Char)
  | transit (transiting natalBody : Planet) (kind : AspectKind)
  | skyAspect (aspectSig : List Char)
  | houseTransit (transiting : Planet) (house : Fin 256)
  | placement (planet : Planet) (sign : Fin 256) (house : Option (Fin 256))
  | placementAngle (angle : Angle) (sign : Fin 256)
  deriving DecidableEq

namespace InterpKey

/-- The string of a key, with the house number written by `write`. -/
def sigWith (write : Fin 256 → List Char) : InterpKey → List Char
  | natal aspectSig => "natal:".toList ++ aspectSig
  | synastry aspectSig => "synastry:".toList ++ aspectSig
  | skyAspect aspectSig => "sky:".toList ++ aspectSig
  | transit transiting natalBody kind =>
    "transit:".toList ++ (transiting.name ++ '_' :: (kind.name ++ '_' :: natalBody.name))
  | houseTransit transiting house =>
    "house_transit:".toList ++ (transiting.name ++ ':' :: write house)
  | placement planet sign (some house) =>
    "placement:".toList ++ (planet.name ++ ':' :: (signNameLower sign ++ ':' :: write house))
  | placement planet sign none =>
    "placement:".toList ++ (planet.name ++ ':' :: signNameLower sign)
  | placementAngle angle sign =>
    "placement_angle:".toList ++ (angle.tag ++ ':' :: signNameLower sign)

/-- Canonical string written to the `interp_key` column. -/
def toSig : InterpKey → List Char := sigWith fun house => Nat.toDigits 10 house

end InterpKey

/-! ## The parser -/

/-- The order in which the parser looks for aspect names. -/
def transitKinds : List AspectKind :=
  [.semiSextile, .conjunction, .sextile, .square, .trine, .quincunx, .opposition]

def AspectKind.needle (kind : AspectKind) : List Char := '_' :: (kind.name ++ ['_'])

/-- The first aspect name that is found splits the string, whatever the planets are. -/
def parseTransit (rest : List Char) : List AspectKind → Option InterpKey
  | [] => none
  | kind :: kinds =>
    match splitAtFirst kind.needle rest with
    | some (before, after) => do
      let transiting ← Planet.fromName before
      let natalBody ← Planet.fromName after
      some (.transit transiting natalBody kind)
    | none => parseTransit rest kinds

/-- `str::parse::<u8>` -/
def parseU8 (s : List Char) : Option (Fin 256) := (parseUnsigned 256 s).map (Fin.ofNat 256)

def parseHouseTransit (rest : List Char) : Option InterpKey := do
  let (p, h) ← splitOnce ':' rest
  let transiting ← Planet.fromName p
  let house ← parseU8 h
  some (.houseTransit transiting house)

def parsePlacement (rest : List Char) : Option InterpKey :=
  match splitn ':' 3 rest with
  | p :: signName :: parts => do
    let planet ← Planet.fromName p
    let sign ← signs.find? fun i => signNameLower i = signName
    match parts.head? with
    | some h => do
      let house ← parseU8 h
      some (.placement planet sign (some house))
    | none => some (.placement planet sign none)
  | _ => none

/-- What `rest` stands for after a kind. -/
def parseKind (kind rest : List Char) : Option InterpKey :=
  if kind = "natal".toList then some (.natal rest)
  else if kind = "synastry".toList then some (.synastry rest)
  else if kind = "sky".toList then some (.skyAspect rest)
  else if kind = "transit".toList then parseTransit rest transitKinds
  else if kind = "house_transit".toList then parseHouseTransit rest
  else if kind = "placement".toList then parsePlacement rest
  -- placement angles are omitted
  else none

/-- Best-effort reverse of `to_sig`: parse a canonical key string back into an `InterpKey`. -/
def parseInterpSig (sig : List Char) : Option InterpKey :=
  match splitOnce ':' sig with
  | none => none
  | some (kind, rest) => parseKind kind rest

/-! ## What the parser reads -/

theorem parseU8_eq_some_iff {s : List Char} {n : Fin 256} :
    parseU8 s = some n ↔ Spells s n.val := by
  rw [parseU8, Option.map_eq_some_iff]
  constructor
  · rintro ⟨m, read, rfl⟩
    obtain ⟨lt, spells⟩ := (parseUnsigned_eq_some_iff (by omega)).1 read
    rwa [Fin.val_ofNat, Nat.mod_eq_of_lt lt]
  · intro spells
    exact ⟨n.val, (parseUnsigned_eq_some_iff (by omega)).2 ⟨n.isLt, spells⟩,
      Fin.ofNat_val_eq_self n⟩

/-- Among names without underscores an aspect name is found in no other place. -/
theorem splitAtFirst_needle (kind kind' : AspectKind)
    (longest : kind' = .semiSextile ∨ kind ≠ .semiSextile) (p q : Planet) :
    splitAtFirst kind'.needle (p.name ++ (kind.needle ++ q.name)) =
      if kind' = kind then some (p.name, q.name) else none := by
  have alone : splitAtFirst kind'.needle kind.needle =
      if kind' = kind then some ([], []) else none := by
    revert longest
    cases kind <;> cases kind' <;> decide
  have right := splitAtFirst_append_right q.not_mem_name.2 ('_' :: kind'.name) kind.needle
  have left := splitAtFirst_append_left p.not_mem_name.2 (kind'.name ++ ['_'])
    (kind.needle ++ q.name)
  rw [List.cons_append, ← AspectKind.needle, alone] at right
  rw [← AspectKind.needle, right] at left
  rw [left]
  split_ifs
  · simp
  · rfl

theorem parseTransit_sig (p q : Planet) (kind : AspectKind) :
    parseTransit (p.name ++ (kind.needle ++ q.name)) transitKinds = some (.transit p q kind) := by
  have read (name : Planet) : Planet.fromName name.name = some name :=
    Planet.fromName_eq_some_iff.2 rfl
  cases kind <;>
    simp [transitKinds, parseTransit, splitAtFirst_needle, read]

theorem parseTransit_eq_some {rest : List Char} {kinds : List AspectKind} {k : InterpKey}
    (parsed : parseTransit rest kinds = some k) :
    ∃ p q kind, k = .transit p q kind ∧ rest = p.name ++ (kind.needle ++ q.name) := by
  induction kinds with
  | nil => cases parsed
  | cons kind kinds ih =>
    rw [parseTransit] at parsed
    split at parsed
    · next before after found =>
      obtain ⟨p, first, parsed⟩ := Option.bind_eq_some_iff.1 parsed
      obtain ⟨q, second, parsed⟩ := Option.bind_eq_some_iff.1 parsed
      refine ⟨p, q, kind, (Option.some.inj parsed).symm, ?_⟩
      rw [← Planet.fromName_eq_some_iff.1 first, ← Planet.fromName_eq_some_iff.1 second]
      exact splitAtFirst_eq_some found
    · exact ih parsed

theorem parseHouseTransit_eq_some_iff {rest : List Char} {k : InterpKey} :
    parseHouseTransit rest = some k ↔
      ∃ p house h, k = .houseTransit p house ∧ Spells h house.val ∧ rest = p.name ++ ':' :: h := by
  constructor
  · intro parsed
    obtain ⟨⟨name, h⟩, parts, parsed⟩ := Option.bind_eq_some_iff.1 parsed
    obtain ⟨p, planet, parsed⟩ := Option.bind_eq_some_iff.1 parsed
    obtain ⟨house, number, parsed⟩ := Option.bind_eq_some_iff.1 parsed
    refine ⟨p, house, h, (Option.some.inj parsed).symm, parseU8_eq_some_iff.1 number, ?_⟩
    rw [← Planet.fromName_eq_some_iff.1 planet]
    exact splitOnce_eq_some parts
  · rintro ⟨p, house, h, rfl, spells, rfl⟩
    simp [parseHouseTransit, splitOnce_append p.not_mem_name.1,
      Planet.fromName_eq_some_iff.2 rfl, parseU8_eq_some_iff.2 spells]

/-- The house is the third part, if there is one. -/
theorem splitn_three (l : List Char) :
    splitn ':' 3 l =
      match splitOnce ':' l with
      | none => [l]
      | some (a, b) =>
        match splitOnce ':' b with
        | none => [a, b]
        | some (b, c) => [a, b, c] := by
  rw [splitn]
  cases splitOnce ':' l with
  | none => rfl
  | some parts =>
    simp only [splitn]
    cases splitOnce ':' parts.2 <;> rfl

theorem parsePlacement_eq_some_iff {rest : List Char} {k : InterpKey} :
    parsePlacement rest = some k ↔
      ∃ p sign, sign.val < 12 ∧
        ((k = .placement p sign none ∧ rest = p.name ++ ':' :: signNameLower sign) ∨
          ∃ house h, k = .placement p sign (some house) ∧ Spells h house.val ∧
            rest = p.name ++ ':' :: (signNameLower sign ++ ':' :: h)) := by
  constructor
  · intro parsed
    rw [parsePlacement, splitn_three] at parsed
    cases first : splitOnce ':' rest with
    | none => simp [first] at parsed
    | some parts =>
      obtain ⟨name, later⟩ := parts
      have whole := splitOnce_eq_some first
      cases second : splitOnce ':' later with
      | none =>
        simp only [first, second, List.head?_nil] at parsed
        obtain ⟨p, planet, parsed⟩ := Option.bind_eq_some_iff.1 parsed
        obtain ⟨sign, found, parsed⟩ := Option.bind_eq_some_iff.1 parsed
        obtain ⟨lt, same⟩ := find?_signs_eq_some_iff.1 found
        refine ⟨p, sign, lt, .inl ⟨(Option.some.inj parsed).symm, ?_⟩⟩
        rw [whole, Planet.fromName_eq_some_iff.1 planet, same]
      | some parts =>
        obtain ⟨signName, h⟩ := parts
        simp only [first, second, List.head?_cons] at parsed
        obtain ⟨p, planet, parsed⟩ := Option.bind_eq_some_iff.1 parsed
        obtain ⟨sign, found, parsed⟩ := Option.bind_eq_some_iff.1 parsed
        obtain ⟨house, number, parsed⟩ := Option.bind_eq_some_iff.1 parsed
        obtain ⟨lt, same⟩ := find?_signs_eq_some_iff.1 found
        refine ⟨p, sign, lt, .inr ⟨house, h, (Option.some.inj parsed).symm,
          parseU8_eq_some_iff.1 number, ?_⟩⟩
        rw [whole, Planet.fromName_eq_some_iff.1 planet, splitOnce_eq_some second, same]
  · rintro ⟨p, sign, lt, ⟨rfl, rfl⟩ | ⟨house, h, rfl, spells, rfl⟩⟩
    · have single : splitOnce ':' (signNameLower sign) = none :=
        splitOnce_eq_none.2 (not_mem_signNameLower lt)
      simp [parsePlacement, splitn_three, splitOnce_append p.not_mem_name.1, single,
        Planet.fromName_eq_some_iff.2 rfl, find?_signs_eq_some_iff.2 ⟨lt, rfl⟩]
    · simp [parsePlacement, splitn_three, splitOnce_append p.not_mem_name.1,
        splitOnce_append (not_mem_signNameLower lt), Planet.fromName_eq_some_iff.2 rfl,
        find?_signs_eq_some_iff.2 ⟨lt, rfl⟩, parseU8_eq_some_iff.2 spells]

/-! ## Canonical strings -/

/-- The keys that the parser knows. -/
def InterpKey.Parses : InterpKey → Prop
  | placement _ sign _ => sign.val < 12
  | placementAngle _ _ => False
  | _ => True

/-- Write the house `house` as `h`, and every other as its digits. -/
theorem exists_write {house : Fin 256} {h : List Char} (spells : Spells h house.val) :
    ∃ write : Fin 256 → List Char, (∀ n, Spells (write n) n.val) ∧ write house = h := by
  refine ⟨fun n => if n = house then h else Nat.toDigits 10 n.val, fun n => ?_, if_pos rfl⟩
  dsimp only
  split_ifs with same
  · exact same ▸ spells
  · exact spells_toDigits n.val

namespace InterpKey

/-- The kind that a string starts with. -/
def tag : InterpKey → List Char
  | natal _ => "natal".toList
  | synastry _ => "synastry".toList
  | skyAspect _ => "sky".toList
  | transit _ _ _ => "transit".toList
  | houseTransit _ _ => "house_transit".toList
  | placement _ _ _ => "placement".toList
  | placementAngle _ _ => "placement_angle".toList

/-- What follows the kind. -/
def body (write : Fin 256 → List Char) : InterpKey → List Char
  | natal aspectSig | synastry aspectSig | skyAspect aspectSig => aspectSig
  | transit transiting natalBody kind => transiting.name ++ (kind.needle ++ natalBody.name)
  | houseTransit transiting house => transiting.name ++ ':' :: write house
  | placement planet sign (some house) =>
    planet.name ++ ':' :: (signNameLower sign ++ ':' :: write house)
  | placement planet sign none => planet.name ++ ':' :: signNameLower sign
  | placementAngle angle sign => angle.tag ++ ':' :: signNameLower sign

theorem sigWith_eq (write : Fin 256 → List Char) (k : InterpKey) :
    k.sigWith write = k.tag ++ ':' :: k.body write := by
  cases k with
  | transit p q kind =>
    have split : '_' :: (kind.name ++ '_' :: q.name) = kind.needle ++ q.name := by
      simp [AspectKind.needle]
    exact congrArg (fun rest => "transit:".toList ++ (p.name ++ rest)) split
  | placement p sign house => cases house <;> rfl
  | _ => rfl

theorem not_mem_tag (k : InterpKey) : ':' ∉ k.tag := by
  cases k <;> exact of_decide_eq_true rfl

end InterpKey

theorem parseKind_eq_some_iff {kind rest : List Char} {k : InterpKey} :
    parseKind kind rest = some k ↔
      k.Parses ∧ kind = k.tag ∧ ∃ write : Fin 256 → List Char,
        (∀ n, Spells (write n) n.val) ∧ rest = k.body write := by
  have digits : ∀ n : Fin 256, Spells (Nat.toDigits 10 n.val) n.val := fun n =>
    spells_toDigits n.val
  constructor
  · intro parsed
    rw [parseKind] at parsed
    split_ifs at parsed with natal synastry sky transit houseTransit placement
    · obtain rfl := Option.some.inj parsed
      exact ⟨trivial, natal, _, digits, rfl⟩
    · obtain rfl := Option.some.inj parsed
      exact ⟨trivial, synastry, _, digits, rfl⟩
    · obtain rfl := Option.some.inj parsed
      exact ⟨trivial, sky, _, digits, rfl⟩
    · obtain ⟨p, q, aspect, rfl, rfl⟩ := parseTransit_eq_some parsed
      exact ⟨trivial, transit, _, digits, rfl⟩
    · obtain ⟨p, house, h, rfl, spells, rfl⟩ := parseHouseTransit_eq_some_iff.1 parsed
      obtain ⟨write, all, rfl⟩ := exists_write spells
      exact ⟨trivial, houseTransit, write, all, rfl⟩
    · obtain ⟨p, sign, lt, ⟨rfl, rfl⟩ | ⟨house, h, rfl, spells, rfl⟩⟩ :=
        parsePlacement_eq_some_iff.1 parsed
      · exact ⟨lt, placement, _, digits, rfl⟩
      · obtain ⟨write, all, rfl⟩ := exists_write spells
        exact ⟨lt, placement, write, all, rfl⟩
  · rintro ⟨parses, rfl, write, all, rfl⟩
    cases k with
    | natal sig => rfl
    | synastry sig => rfl
    | skyAspect sig => rfl
    | transit p q kind => exact parseTransit_sig p q kind
    | houseTransit p house =>
      exact parseHouseTransit_eq_some_iff.2 ⟨p, house, write house, rfl, all house, rfl⟩
    | placement p sign house =>
      refine parsePlacement_eq_some_iff.2 ⟨p, sign, parses, ?_⟩
      cases house with
      | none => exact .inl ⟨rfl, rfl⟩
      | some house => exact .inr ⟨house, write house, rfl, all house, rfl⟩
    | placementAngle angle sign => exact parses.elim

/-- **What parses to a key is its string up to the spelling of the house number**, and the parser
knows every key but the placements of angles. -/
theorem parseInterpSig_eq_some_iff (s : List Char) (k : InterpKey) :
    parseInterpSig s = some k ↔
      k.Parses ∧ ∃ write : Fin 256 → List Char,
        (∀ n, Spells (write n) n.val) ∧ s = k.sigWith write := by
  simp only [InterpKey.sigWith_eq]
  constructor
  · intro parsed
    cases first : splitOnce ':' s with
    | none => simp [parseInterpSig, first] at parsed
    | some parts =>
      obtain ⟨kind, rest⟩ := parts
      simp only [parseInterpSig, first] at parsed
      obtain ⟨parses, rfl, write, all, rfl⟩ := parseKind_eq_some_iff.1 parsed
      exact ⟨parses, write, all, splitOnce_eq_some first⟩
  · rintro ⟨parses, write, all, rfl⟩
    rw [parseInterpSig, splitOnce_append k.not_mem_tag]
    exact parseKind_eq_some_iff.2 ⟨parses, rfl, write, all, rfl⟩

/-- **The strings of the keys are canonical but for the spelling of the house number**, and the
string of every key but the placements of angles is read back. -/
theorem sigs_canonical :
    (∀ s k, parseInterpSig s = some k ↔
      k.Parses ∧ ∃ write : Fin 256 → List Char,
        (∀ n, Spells (write n) n.val) ∧ s = k.sigWith write) ∧
    ∀ k : InterpKey, k.Parses → parseInterpSig k.toSig = some k := by
  refine ⟨parseInterpSig_eq_some_iff, fun k parses => ?_⟩
  rw [parseInterpSig_eq_some_iff]
  exact ⟨parses, _, fun n => spells_toDigits n.val, rfl⟩

/-- The house number may have a plus sign, and the placement of an angle is not read back. -/
theorem sigs_not_canonical :
    parseInterpSig "house_transit:mars:+7".toList = some (.houseTransit .mars 7) ∧
      (InterpKey.houseTransit .mars 7).toSig ≠ "house_transit:mars:+7".toList ∧
      parseInterpSig (InterpKey.placementAngle .ascendant 0).toSig = none := by
  decide +kernel

end Zodia.Core
