import Zodia.Core.ChartSummary
import Zodia.Core.KeyTexts
import Zodia.Core.Transits

/-!
# The rows of a chart page

A chart is shown as rows with one interpretation key each: the placements of its bodies and angles
(`app/src/placements.rs`), then its aspects (`app/src/aspect_list.rs`). A search over the page goes
by the titles of rows.

## Main definitions

* `lonToSignDeg`, `isRetrograde` — where a body is and which way it goes.
* `placementItems`, `natalItems`, `synastryItems` — the rows.

## Main results

* `chart_rows` — what the rows of a chart say, and that no two of them are called alike.
* `synastry_rows` — which rows of a synastry are called alike.
-/

namespace Zodia.Core

/-! ## Glyphs -/

/-- A glyph followed by the selector of its text form. -/
def glyph (c : Char) : List Char := [c, '\uFE0E']

def Planet.symbol : Planet → List Char
  | .sun => glyph '☉'
  | .moon => glyph '☽'
  | .mercury => glyph '☿'
  | .venus => glyph '♀'
  | .mars => glyph '♂'
  | .jupiter => glyph '♃'
  | .saturn => glyph '♄'
  | .uranus => glyph '♅'
  | .neptune => glyph '♆'
  | .pluto => glyph '♇'

def AspectKind.symbol : AspectKind → List Char
  | .conjunction => glyph '☌'
  | .semiSextile => glyph '⚺'
  | .sextile => glyph '⚹'
  | .square => glyph '□'
  | .trine => glyph '△'
  | .quincunx => glyph '⚻'
  | .opposition => glyph '☍'

/-! ## Retrogrades -/

/-- Whether a planet moved backwards since yesterday. -/
def isRetrograde (computePositions : ℚ → Option PlanetPositions) (planet : Planet) (jdn : ℚ) :
    Bool :=
  if planet = .sun ∨ planet = .moon then false
  else
    match computePositions jdn, computePositions (jdn - 1) with
    | some now, some yesterday =>
      match now planet, yesterday planet with
      | some lonNow, some lonPrev =>
        let delta := lonNow - lonPrev
        let delta := if 180 < delta then delta - 360 else delta
        let delta := if delta < -180 then delta + 360 else delta
        decide (delta < 0)
      | _, _ => false
    | _, _ => false

/-- Longitudes are degrees of the circle. -/
def OnCircle (computePositions : ℚ → Option PlanetPositions) : Prop :=
  ∀ jdn, ∀ sky ∈ computePositions jdn, ∀ planet, ∀ lon ∈ sky planet, 0 ≤ lon ∧ lon < 360

/-- The shorter way from yesterday's place to today's goes back. -/
def MovesBack (computePositions : ℚ → Option PlanetPositions) (jdn : ℚ) (planet : Planet) : Prop :=
  ∃ now ∈ computePositions jdn, ∃ yesterday ∈ computePositions (jdn - 1),
    ∃ lonNow ∈ now planet, ∃ lonPrev ∈ yesterday planet,
      180 < remEuclid (lonNow - lonPrev) 360 ∨
        (remEuclid (lonNow - lonPrev) 360 = 180 ∧ lonNow < lonPrev)

theorem isRetrograde_iff {computePositions : ℚ → Option PlanetPositions}
    (circle : OnCircle computePositions) {planet : Planet} {jdn : ℚ} :
    isRetrograde computePositions planet jdn = true ↔
      planet ≠ .sun ∧ planet ≠ .moon ∧ MovesBack computePositions jdn planet := by
  unfold isRetrograde MovesBack
  split_ifs with luminary
  · simp only [false_iff]
    tauto
  · have other : planet ≠ .sun ∧ planet ≠ .moon := not_or.1 luminary
    cases today : computePositions jdn with
    | none => simp
    | some now =>
      cases before : computePositions (jdn - 1) with
      | none => simp
      | some yesterday =>
        cases here : now planet with
        | none => simp [here]
        | some lonNow =>
          cases there : yesterday planet with
          | none => simp [there]
          | some lonPrev =>
            have a := circle jdn now today planet lonNow here
            have b := circle (jdn - 1) yesterday before planet lonPrev there
            simp only [decide_eq_true_eq, Option.mem_def, Option.some.injEq, exists_eq_left',
              here, there, other, ne_eq, not_false_eq_true, true_and]
            rw [remEuclid_sub a b]
            grind

end Zodia.Core

namespace Zodia.App

open Lib Zodia.Core Decimal

/-! ## Numbers and signs -/

def signGlyphs : List Char :=
  ['♈', '♉', '♊', '♋', '♌', '♍', '♎', '♏', '♐', '♑', '♒', '♓']

/-- Zodiac sign glyph from a sign index. -/
def signGlyph (sign : Fin 256) : List Char :=
  ((signGlyphs[sign.val % 12]?).map glyph).getD ['?']

/-- A number of two digits at least. -/
def twoDigits (n : ℕ) : List Char :=
  if n < 10 then '0' :: Nat.toDigits 10 n else Nat.toDigits 10 n

/-- The nearest tenths, the even ones between two. -/
def tenths (x : ℚ) : ℕ :=
  let low := ⌊10 * x⌋.toNat
  let rest := 10 * x - low
  if rest < 1 / 2 ∨ (rest = 1 / 2 ∧ low % 2 = 0) then low else low + 1

/-- An orb with its sign and one decimal place. -/
def orbText (orb : ℚ) : List Char :=
  "orb ".toList ++ (if orb < 0 then ['-'] else []) ++ Nat.toDigits 10 (tenths |orb| / 10) ++
    '.' :: (Nat.toDigits 10 (tenths |orb| % 10) ++ ['°'])

def degreeText (deg min : ℕ) : List Char :=
  Nat.toDigits 10 deg ++ '°' :: (twoDigits min ++ ['′'])

/-- Ecliptic longitude to sign index and degrees within the sign. -/
def lonToSignDeg (lon : ℚ) : Fin 256 × List Char :=
  let lon := remEuclid lon 360
  let signIdx := toU8 (⌊lon / 30⌋.toNat % 12)
  let within := remEuclid lon 30
  let deg := ⌊within⌋.toNat
  let min := ⌊(within - deg) * 60 + 1 / 2⌋.toNat
  (signIdx, degreeText deg min)

/-! ## Rows -/

/-- A key of a row, and the title of its tab. -/
structure KeyEntry where
  label : List Char
  key : InterpKey

/-- Data for a single interpretation row. -/
structure AspectItem where
  keys : List KeyEntry
  title : List Char
  symbolLine : List Char
  metaLine : Option (List Char)
  transitContext : Option (List Char)

section Rows

variable (U : Uppercase)

def criticalNote : List Char := " · critical degree".toList

/-- A note on the last degree of a sign. -/
def criticalDegreeMeta (lon : ℚ) (degStr : List Char) : List Char :=
  if isCriticalDegree lon then degStr ++ criticalNote else degStr

def retroSuffix (retrograde : Bool) : List Char := if retrograde then " ℞".toList else []

/-- The house part of a placement's title. -/
def houseTitle (house : Option (Fin 256)) : List Char :=
  match house with
  | some house => " · House ".toList ++ Nat.toDigits 10 house.val
  | none => []

/-- The house part of a placement's symbols. -/
def houseSymbol (house : Option (Fin 256)) : List Char :=
  match house with
  | some house => " ⌂".toList ++ Nat.toDigits 10 house.val
  | none => []

/-- The house of a placement, if the chart has houses. -/
def placedHouse (houses : HouseSystem) (lon : ℚ) : Option (Fin 256) :=
  if houses.isStub then none else some (toU8 (houses.houseOf lon))

/-- The row of a planet. -/
def planetItem (houses : HouseSystem) (planet : Planet) (lon : ℚ) (retrograde : Bool) :
    AspectItem :=
  let place := lonToSignDeg lon
  let house := placedHouse houses lon
  let signOnlyName := (InterpKey.placement planet place.1 none).plainName U
  { keys := [⟨"Placement".toList, .placement planet place.1 house⟩]
    title := signOnlyName ++ (houseTitle house ++ retroSuffix retrograde)
    symbolLine := planet.symbol ++ ' ' :: (signGlyph place.1 ++
      (houseSymbol house ++ retroSuffix retrograde))
    metaLine := some (criticalDegreeMeta lon place.2)
    transitContext := none }

/-- The row of an angle, under its short name. -/
def angleItem (angle : Angle) (short : List Char) (lon : ℚ) : AspectItem :=
  let place := lonToSignDeg lon
  let key := InterpKey.placementAngle angle place.1
  { keys := [⟨"Sign".toList, key⟩]
    title := key.plainName U
    symbolLine := short ++ ' ' :: signGlyph place.1
    metaLine := some (criticalDegreeMeta lon place.2)
    transitContext := none }

/-- One row per planet and one row per angle. -/
def placementItems (computePositions : ℚ → Option PlanetPositions) (jdn : ℚ)
    (positions : PlanetPositions) (houses : HouseSystem) : List AspectItem :=
  (Planet.all.filterMap fun planet => (positions planet).map fun lon =>
    planetItem U houses planet lon (isRetrograde computePositions planet jdn)) ++
  [angleItem U .ascendant "ASC".toList houses.ascendant,
    angleItem U .midheaven "MC".toList houses.midheaven]

/-- The row of an aspect. -/
def aspectItem (key : InterpKey) (bodyA bodyB : Planet) (kind : AspectKind) (orb : ℚ) :
    AspectItem where
  keys := [⟨"Aspect".toList, key⟩]
  title := key.plainName U
  symbolLine := bodyA.symbol ++ ' ' :: (kind.symbol ++ ' ' :: bodyB.symbol)
  metaLine := some (orbText orb)
  transitContext := none

def natalItems (aspects : List Aspect) : List AspectItem :=
  aspects.map fun a => aspectItem U (.natal a.sig) a.bodyA a.bodyB a.kind a.orb

def synastryItems (aspects : List SynastryAspect) : List AspectItem :=
  aspects.map fun a => aspectItem U (.synastry a.sig) a.bodyA a.bodyB a.kind a.orb

end Rows

/-! ## Degrees -/

/-- The longitude is in this degree of the sign, and in the minute around this one. -/
structure ReadsAs (lon : ℚ) (sign deg min : ℕ) : Prop where
  sign_lt : sign < 12
  deg_lt : deg < 30
  degree : 30 * sign + deg ≤ remEuclid lon 360 ∧ remEuclid lon 360 < 30 * sign + deg + 1
  minute : 30 * sign + deg + (min - 1 / 2) / 60 ≤ remEuclid lon 360 ∧
    remEuclid lon 360 < 30 * sign + deg + (min + 1 / 2) / 60

/-- What is left of a nonnegative number, and its whole turns. -/
theorem remEuclid_split {x : ℚ} (nonneg : 0 ≤ x) :
    x = 30 * (⌊x / 30⌋.toNat : ℚ) + remEuclid x 30 ∧ 0 ≤ remEuclid x 30 ∧ remEuclid x 30 < 30 := by
  have low := Int.floor_le (x / 30)
  have high := Int.lt_floor_add_one (x / 30)
  have cast : (⌊x / 30⌋.toNat : ℚ) = ⌊x / 30⌋ := by
    exact_mod_cast Int.toNat_of_nonneg (Int.floor_nonneg.2 (by positivity))
  rw [cast, remEuclid]
  exact ⟨by ring, by linarith, by linarith⟩

/-- The whole part of a nonnegative number. -/
theorem toNat_floor {x : ℚ} (nonneg : 0 ≤ x) : (⌊x⌋.toNat : ℚ) ≤ x ∧ x < ⌊x⌋.toNat + 1 := by
  have cast : (⌊x⌋.toNat : ℚ) = ⌊x⌋ := by
    exact_mod_cast Int.toNat_of_nonneg (Int.floor_nonneg.2 nonneg)
  rw [cast]
  exact ⟨Int.floor_le x, Int.lt_floor_add_one x⟩

/-- The label of a longitude, and when it is the last degree. -/
theorem lonToSignDeg_spec (lon : ℚ) :
    ∃ deg min : ℕ, lonToSignDeg lon = (toU8 (signOf lon), degreeText deg min) ∧
      ReadsAs lon (signOf lon) deg min ∧ (isCriticalDegree lon = true ↔ deg = 29) := by
  obtain ⟨nonneg, -⟩ := remEuclid_mem lon
  obtain ⟨low, high⟩ := signOf_bounds lon
  obtain ⟨split, within, lt⟩ := remEuclid_split nonneg
  -- the sign is the number of whole turns by thirty degrees
  have turns : (⌊remEuclid lon 360 / 30⌋.toNat : ℚ) = signOf lon := by
    have below : signOf lon < ⌊remEuclid lon 360 / 30⌋.toNat + 1 := by
      have : (signOf lon : ℚ) < ⌊remEuclid lon 360 / 30⌋.toNat + 1 := by linarith
      exact_mod_cast this
    have above : ⌊remEuclid lon 360 / 30⌋.toNat < signOf lon + 1 := by
      have : (⌊remEuclid lon 360 / 30⌋.toNat : ℚ) < signOf lon + 1 := by linarith
      exact_mod_cast this
    have same : ⌊remEuclid lon 360 / 30⌋.toNat = signOf lon := by omega
    rw [same]
  rw [turns] at split
  obtain ⟨degLow, degHigh⟩ := toNat_floor within
  obtain ⟨minLow, minHigh⟩ := toNat_floor (x := (remEuclid (remEuclid lon 360) 30 -
    ⌊remEuclid (remEuclid lon 360) 30⌋.toNat) * 60 + 1 / 2) (by linarith)
  have degLt : ⌊remEuclid (remEuclid lon 360) 30⌋.toNat < 30 := by
    have : (⌊remEuclid (remEuclid lon 360) 30⌋.toNat : ℚ) < 30 := by linarith
    exact_mod_cast this
  refine ⟨_, _, rfl, ⟨signOf_lt lon, degLt, ⟨by linarith, by linarith⟩,
    ⟨by linarith, by linarith⟩⟩, ?_⟩
  rw [isCriticalDegree, decide_eq_true_iff]
  constructor
  · intro late
    have : (28 : ℚ) < ⌊remEuclid (remEuclid lon 360) 30⌋.toNat := by linarith
    have : 28 < ⌊remEuclid (remEuclid lon 360) 30⌋.toNat := by exact_mod_cast this
    omega
  · intro last
    rw [last] at degLow
    exact_mod_cast degLow

/-! ## What rows say -/

section Tell

variable {U : Uppercase} {computePositions : ℚ → Option PlanetPositions} {jdn : ℚ}
  {positions : PlanetPositions} {houses : HouseSystem}

theorem mem_placementItems {row : AspectItem} :
    row ∈ placementItems U computePositions jdn positions houses ↔
      (∃ planet, ∃ lon ∈ positions planet,
        row = planetItem U houses planet lon (isRetrograde computePositions planet jdn)) ∨
      row = angleItem U .ascendant "ASC".toList houses.ascendant ∨
      row = angleItem U .midheaven "MC".toList houses.midheaven := by
  simp only [placementItems, List.mem_append, List.mem_filterMap, Option.map_eq_some_iff,
    List.mem_cons, List.not_mem_nil, or_false]
  constructor
  · rintro (⟨planet, -, lon, here, rfl⟩ | angle)
    · exact .inl ⟨planet, lon, here, rfl⟩
    · exact .inr angle
  · rintro (⟨planet, lon, here, rfl⟩ | angle)
    · exact .inl ⟨planet, planet.mem_all, lon, here, rfl⟩
    · exact .inr angle

theorem sign_lonToSignDeg (lon : ℚ) : (lonToSignDeg lon).1.val = signOf lon := by
  obtain ⟨deg, min, same, -⟩ := lonToSignDeg_spec lon
  rw [same, val_toU8]
  have := signOf_lt lon
  omega

theorem sign_lonToSignDeg_lt (lon : ℚ) : (lonToSignDeg lon).1.val < 12 := by
  rw [sign_lonToSignDeg]
  exact signOf_lt lon

theorem title_planetItem (planet : Planet) (lon : ℚ) (retrograde : Bool) :
    (planetItem U houses planet lon retrograde).title =
      planet.capName ++ ' ' :: ("in ".toList ++ (signCapName (lonToSignDeg lon).1 ++
        (houseTitle (placedHouse houses lon) ++ retroSuffix retrograde))) := by
  rw [planetItem]
  dsimp only
  rw [plainName_placement U planet (sign_lonToSignDeg_lt lon), append_houseSuffix_none]
  simp only [List.append_assoc, List.cons_append]

theorem title_angleItem (angle : Angle) (short : List Char) (lon : ℚ) :
    (angleItem U angle short lon).title =
      angle.displayName ++ ' ' :: ("in ".toList ++ signCapName (lonToSignDeg lon).1) := by
  rw [angleItem]
  dsimp only
  rw [plainName_placementAngle U angle (sign_lonToSignDeg_lt lon), append_houseSuffix_none]

/-- The mark of a retrograde is not in the rest of a title. -/
theorem mem_title_planetItem {planet : Planet} {lon : ℚ} {retrograde : Bool} :
    '℞' ∈ (planetItem U houses planet lon retrograde).title ↔ retrograde = true := by
  have name : '℞' ∉ planet.capName := by cases planet <;> decide
  have sign : '℞' ∉ signCapName (lonToSignDeg lon).1 := by
    have each : ∀ s ∈ signs, '℞' ∉ signCapName s := by decide +kernel
    exact each _ (mem_signs.2 (sign_lonToSignDeg_lt lon))
  have house : '℞' ∉ houseTitle (placedHouse houses lon) := by
    cases placedHouse houses lon with
    | none => exact List.not_mem_nil
    | some house =>
      rw [houseTitle, List.mem_append, not_or]
      exact ⟨by decide, not_mem_toDigits house.val rfl⟩
  rw [title_planetItem]
  cases retrograde <;> simp [name, sign, house, retroSuffix]

/-- The first word of a title. -/
def firstWord (title : List Char) : Option (List Char) := (splitOnce ' ' title).map Prod.fst

theorem firstWord_append {word rest : List Char} (single : ' ' ∉ word) :
    firstWord (word ++ ' ' :: rest) = some word := by
  rw [firstWord, splitOnce_append single]
  rfl

/-- The titles of placements start with the name of what is placed. -/
theorem map_firstWord_placementItems :
    ((placementItems U computePositions jdn positions houses).map fun row =>
      firstWord row.title) =
      (Planet.all.filterMap fun planet => (positions planet).map fun _ => some planet.capName) ++
        [some Angle.ascendant.displayName, some Angle.midheaven.displayName] := by
  simp only [placementItems, List.map_append, List.map_filterMap, Option.map_map, List.map_cons,
    List.map_nil, Function.comp_def, title_planetItem, title_angleItem,
    firstWord_append (Planet.not_mem_capName _).1, firstWord_append (Angle.displayName_spec _).1]

theorem nodup_firstWord_placementItems :
    ((placementItems U computePositions jdn positions houses).map fun row =>
      firstWord row.title).Nodup := by
  rw [map_firstWord_placementItems]
  refine List.nodup_append.2 ⟨?_, by decide, ?_⟩
  · refine nodup_planets.filterMap fun p q word here there => ?_
    simp only [Option.mem_def, Option.map_eq_some_iff] at here there
    obtain ⟨-, -, rfl⟩ := here
    obtain ⟨-, -, same⟩ := there
    exact (Planet.capName_inj (Option.some.inj same)).symm
  · intro word first word' second
    simp only [List.mem_filterMap, Option.map_eq_some_iff] at first
    obtain ⟨p, -, -, -, rfl⟩ := first
    rcases List.mem_pair.1 second with rfl | rfl <;>
      exact fun same => (Angle.displayName_spec _).2.1 p (Option.some.inj same)

theorem nodup_titles_natalItems :
    ((natalItems U (computeAspects positions)).map AspectItem.title).Nodup := by
  rw [natalItems, List.map_map]
  have sigs := nodup_sigs positions
  rw [List.Nodup, List.pairwise_map] at sigs ⊢
  refine sigs.imp fun {a b} ne same => ne ?_
  exact InterpKey.natal.inj
    (plainName_inj U (built_fromNatal a) (built_fromNatal b) rfl same)

/-- The name of what a placement is of. -/
def placedName : InterpKey → Option (List Char)
  | .placement planet _ _ => some planet.capName
  | .placementAngle angle _ => some angle.displayName
  | _ => none

/-- A placement has one key, and its title starts with the name of what is placed. -/
theorem key_of_mem_placementItems {row : AspectItem}
    (mem : row ∈ placementItems U computePositions jdn positions houses) :
    ∃ entry name rest, row.keys = [entry] ∧ entry.key.Built ∧ placedName entry.key = some name ∧
      ' ' ∉ name ∧ row.title = name ++ ' ' :: ("in".toList ++ ' ' :: rest) := by
  rcases mem_placementItems.1 mem with ⟨planet, lon, -, rfl⟩ | rfl | rfl
  · exact ⟨_, _, _, rfl, sign_lonToSignDeg_lt lon, rfl, planet.not_mem_capName.1,
      title_planetItem ..⟩
  · exact ⟨_, _, _, rfl, sign_lonToSignDeg_lt _, rfl, (Angle.displayName_spec _).1,
      title_angleItem ..⟩
  · exact ⟨_, _, _, rfl, sign_lonToSignDeg_lt _, rfl, (Angle.displayName_spec _).1,
      title_angleItem ..⟩

/-- The title of an aspect is the names of its bodies around that of its kind. -/
theorem key_of_mem_natalItems {aspects : List Aspect} {row : AspectItem}
    (mem : row ∈ natalItems U aspects) :
    ∃ entry, ∃ (p q : Planet) (kind : AspectKind), row.keys = [entry] ∧ entry.key.Built ∧
      placedName entry.key = none ∧ row.title = entry.key.plainName U ∧
      row.title = aspectText p.capName kind q.capName := by
  obtain ⟨a, -, rfl⟩ := List.mem_map.1 mem
  obtain ⟨p, q, kind, sig⟩ := built_fromNatal a
  refine ⟨_, p, q, kind, rfl, built_fromNatal a, rfl, rfl, ?_⟩
  rw [aspectItem, InterpKey.plainName, sig, parseAspectSig_eq]

/-- The second words of titles tell placements from aspects. -/
theorem title_ne {row row' : AspectItem}
    (placement : row ∈ placementItems U computePositions jdn positions houses)
    {aspects : List Aspect} (aspect : row' ∈ natalItems U aspects) : row.title ≠ row'.title := by
  obtain ⟨-, name, rest, -, -, -, single, title⟩ := key_of_mem_placementItems placement
  obtain ⟨-, p, q, kind, -, -, -, -, title'⟩ := key_of_mem_natalItems aspect
  rw [title, title']
  intro same
  have second := (append_blank_inj single p.not_mem_capName.1 same).2
  have word := (append_blank_inj (by decide) kind.not_mem_displayName second).1
  revert word
  cases kind <;> decide

theorem nodup_titles :
    ((placementItems U computePositions jdn positions houses ++
      natalItems U (computeAspects positions)).map AspectItem.title).Nodup := by
  rw [List.map_append]
  refine List.nodup_append.2 ⟨List.Nodup.of_map firstWord ?_, nodup_titles_natalItems, ?_⟩
  · rw [List.map_map]
    exact nodup_firstWord_placementItems
  · intro title here title' there
    obtain ⟨row, mem, rfl⟩ := List.mem_map.1 here
    obtain ⟨row', mem', rfl⟩ := List.mem_map.1 there
    exact title_ne mem mem'

/-- Rows of one key are called alike: the key has the name of what is placed, or is an aspect,
which is called by its name. -/
theorem nodup_keys :
    ((placementItems U computePositions jdn positions houses ++
      natalItems U (computeAspects positions)).map fun row =>
        row.keys.map KeyEntry.key).Nodup := by
  rw [List.map_append]
  refine List.nodup_append.2 ⟨?_, ?_, ?_⟩
  · have words : ((placementItems U computePositions jdn positions houses).map fun row =>
        firstWord row.title).Nodup := nodup_firstWord_placementItems
    rw [List.Nodup, List.pairwise_map] at words ⊢
    refine words.imp_of_mem fun mem mem' ne same => ne ?_
    obtain ⟨entry, name, rest, keys, -, named, single, title⟩ := key_of_mem_placementItems mem
    obtain ⟨entry', name', rest', keys', -, named', single', title'⟩ :=
      key_of_mem_placementItems mem'
    rw [keys, keys', List.map_singleton, List.map_singleton, List.singleton_inj] at same
    rw [title, title', firstWord_append single, firstWord_append single', ← named, ← named', same]
  · have titles : ((natalItems U (computeAspects positions)).map AspectItem.title).Nodup :=
      nodup_titles_natalItems
    rw [List.Nodup, List.pairwise_map] at titles ⊢
    refine titles.imp_of_mem fun mem mem' ne same => ne ?_
    obtain ⟨entry, -, -, -, keys, -, -, title, -⟩ := key_of_mem_natalItems mem
    obtain ⟨entry', -, -, -, keys', -, -, title', -⟩ := key_of_mem_natalItems mem'
    rw [keys, keys', List.map_singleton, List.map_singleton, List.singleton_inj] at same
    rw [title, title', same]
  · intro keys here keys' there same
    obtain ⟨row, mem, rfl⟩ := List.mem_map.1 here
    obtain ⟨row', mem', rfl⟩ := List.mem_map.1 there
    obtain ⟨entry, name, -, keys, -, named, -⟩ := key_of_mem_placementItems mem
    obtain ⟨entry', -, -, -, keys', -, none, -⟩ := key_of_mem_natalItems mem'
    rw [keys, keys', List.map_singleton, List.map_singleton, List.singleton_inj] at same
    rw [same, none] at named
    cases named

/-- Where a placement's key places what, and in which sign. -/
def placedAt (positions : PlanetPositions) (houses : HouseSystem) :
    InterpKey → Option (ℚ × Fin 256)
  | .placement planet sign _ => (positions planet).map (·, sign)
  | .placementAngle .ascendant sign => some (houses.ascendant, sign)
  | .placementAngle .midheaven sign => some (houses.midheaven, sign)
  | _ => none

/-- What the rows of a chart say. -/
structure RowsTell (computePositions : ℚ → Option PlanetPositions) (jdn : ℚ)
    (positions : PlanetPositions) (houses : HouseSystem) (placements aspects : List AspectItem) :
    Prop where
  /-- No two rows are called alike, nor do they lead to one reading. -/
  titles : ((placements ++ aspects).map AspectItem.title).Nodup
  keys : ((placements ++ aspects).map fun row => row.keys.map KeyEntry.key).Nodup
  single : ∀ row ∈ placements ++ aspects, ∃ entry, row.keys = [entry] ∧ entry.key.Built
  /-- The sign of the key and the degrees of the label are those of the body. -/
  place : ∀ row ∈ placements, ∀ entry ∈ row.keys, ∃ lon sign, ∃ deg min : ℕ,
    placedAt positions houses entry.key = some (lon, sign) ∧ ReadsAs lon sign.val deg min ∧
      row.metaLine = some (degreeText deg min ++ if deg = 29 then criticalNote else [])
  planet : ∀ row ∈ placements, ∀ entry ∈ row.keys, ∀ p sign house,
    entry.key = .placement p sign house →
      (house = none ↔ houses.isStub = true) ∧
      (∀ n ∈ house, ∀ lon ∈ positions p, n.val = houses.houseOf lon) ∧
      ('℞' ∈ row.title ↔ p ≠ .sun ∧ p ≠ .moon ∧ MovesBack computePositions jdn p)
  /-- The headline agrees with the rows. -/
  headline : ∀ three ∈ bigThree positions houses, ∀ row ∈ placements, ∀ entry ∈ row.keys,
    (∀ sign house, entry.key = .placement .sun sign house → sign.val = three.sunSign) ∧
    (∀ sign house, entry.key = .placement .moon sign house → sign.val = three.moonSign) ∧
    ∀ sign, entry.key = .placementAngle .ascendant sign → sign.val = three.ascendantSign

theorem metaLine_eq (lon : ℚ) : ∃ deg min : ℕ, ReadsAs lon (lonToSignDeg lon).1.val deg min ∧
    criticalDegreeMeta lon (lonToSignDeg lon).2 =
      degreeText deg min ++ if deg = 29 then criticalNote else [] := by
  obtain ⟨deg, min, label, reads, critical⟩ := lonToSignDeg_spec lon
  refine ⟨deg, min, by rwa [sign_lonToSignDeg], ?_⟩
  rw [criticalDegreeMeta, label]
  by_cases last : deg = 29
  · rw [if_pos (critical.2 last), if_pos last]
  · rw [if_neg fun late => last (critical.1 late), if_neg last, List.append_nil]

/-- A row's place, whatever it is the row of. -/
theorem place_of_mem {row : AspectItem}
    (mem : row ∈ placementItems U computePositions jdn positions houses) :
    ∀ entry ∈ row.keys, ∃ lon, ∃ deg min : ℕ,
      placedAt positions houses entry.key = some (lon, (lonToSignDeg lon).1) ∧
      ReadsAs lon (lonToSignDeg lon).1.val deg min ∧
      row.metaLine = some (degreeText deg min ++ if deg = 29 then criticalNote else []) := by
  intro entry own
  rcases mem_placementItems.1 mem with ⟨planet, lon, here, rfl⟩ | rfl | rfl
  all_goals
    obtain rfl := List.mem_singleton.1 own
  · obtain ⟨deg, min, reads, label⟩ := metaLine_eq lon
    refine ⟨lon, deg, min, ?_, reads, congrArg some label⟩
    rw [placedAt, here]
    rfl
  · obtain ⟨deg, min, reads, label⟩ := metaLine_eq houses.ascendant
    exact ⟨_, deg, min, rfl, reads, congrArg some label⟩
  · obtain ⟨deg, min, reads, label⟩ := metaLine_eq houses.midheaven
    exact ⟨_, deg, min, rfl, reads, congrArg some label⟩

/-- **The rows of a chart.** -/
theorem chart_rows (U : Uppercase) (circle : OnCircle computePositions) (jdn : ℚ)
    (positions : PlanetPositions) (houses : HouseSystem) :
    RowsTell computePositions jdn positions houses
      (placementItems U computePositions jdn positions houses)
      (natalItems U (computeAspects positions)) where
  titles := nodup_titles
  keys := nodup_keys
  single row mem := by
    rcases List.mem_append.1 mem with mem | mem
    · obtain ⟨entry, -, -, keys, built, -⟩ := key_of_mem_placementItems mem
      exact ⟨entry, keys, built⟩
    · obtain ⟨entry, -, -, -, keys, built, -⟩ := key_of_mem_natalItems mem
      exact ⟨entry, keys, built⟩
  place row mem entry own := by
    obtain ⟨lon, deg, min, placed, reads, label⟩ := place_of_mem mem entry own
    exact ⟨lon, _, deg, min, placed, reads, label⟩
  planet row mem entry own p sign house key := by
    rcases mem_placementItems.1 mem with ⟨planet, lon, here, rfl⟩ | rfl | rfl
    · obtain rfl := List.mem_singleton.1 own
      obtain ⟨rfl, rfl, rfl⟩ := InterpKey.placement.inj key
      refine ⟨?_, ?_, ?_⟩
      · unfold placedHouse
        split_ifs with stub <;> simp [stub]
      · intro n mem lon' here'
        obtain rfl := Option.some.inj (here.symm.trans here')
        unfold placedHouse at mem
        split_ifs at mem with stub
        · cases mem
        · obtain rfl := Option.some.inj mem
          have := houses.houseOf_bounds lon
          rw [val_toU8]
          omega
      · rw [mem_title_planetItem, isRetrograde_iff circle]
    all_goals
      obtain rfl := List.mem_singleton.1 own
      cases key
  headline three mem row here entry own := by
    obtain ⟨sun, sunHere, rest⟩ := Option.bind_eq_some_iff.1 mem
    obtain ⟨moon, moonHere, rest⟩ := Option.bind_eq_some_iff.1 rest
    obtain rfl := Option.some.inj rest
    obtain ⟨lon, -, -, place, -⟩ := place_of_mem here entry own
    refine ⟨fun sign house key => ?_, fun sign house key => ?_, fun sign key => ?_⟩
    · rw [key, placedAt, sunHere] at place
      obtain ⟨rfl, rfl⟩ := Prod.mk.inj (Option.some.inj place)
      exact sign_lonToSignDeg _
    · rw [key, placedAt, moonHere] at place
      obtain ⟨rfl, rfl⟩ := Prod.mk.inj (Option.some.inj place)
      exact sign_lonToSignDeg _
    · rw [key, placedAt] at place
      obtain ⟨rfl, rfl⟩ := Prod.mk.inj (Option.some.inj place)
      exact sign_lonToSignDeg _

end Tell

/-- Mars is at 358° on day one and at 2° on the other days. -/
def marsAcross (jdn : ℚ) : Option PlanetPositions :=
  some fun planet => if planet = .mars then some (if jdn = 1 then 358 else 2) else none

theorem chart_rows_mars :
    RowsTell marsAcross 1 (fun planet => if planet = .mars then some 358 else none) .stub
        (placementItems .asciiOnly marsAcross 1
          (fun planet => if planet = .mars then some 358 else none) .stub)
        (natalItems .asciiOnly
          (computeAspects fun planet => if planet = .mars then some 358 else none)) ∧
      isRetrograde marsAcross .mars 1 = true := by
  refine ⟨chart_rows .asciiOnly ?_ 1 _ .stub, by decide +kernel⟩
  intro jdn sky here planet lon there
  obtain rfl := Option.some.inj here
  dsimp only at there
  split_ifs at there
  · obtain rfl := Option.some.inj there
    norm_num
  · obtain rfl := Option.some.inj there
    norm_num
  · cases there

/-! ## Synastries -/

section Synastry

variable {ours theirs : PlanetPositions}

/-- The bodies and the kind of an aspect between two charts. -/
def shapeOf (aspect : SynastryAspect) : Planet × Planet × AspectKind :=
  (aspect.bodyA, aspect.bodyB, aspect.kind)

/-- A body of ours and one of theirs are in an aspect of a kind. -/
def Meets (ours theirs : PlanetPositions) (p q : Planet) (kind : AspectKind) : Prop :=
  (aspectBetween (ours p) (theirs q)).map Prod.fst = some kind

instance (ours theirs : PlanetPositions) (p q : Planet) (kind : AspectKind) :
    Decidable (Meets ours theirs p q kind) :=
  inferInstanceAs (Decidable (_ = _))

theorem mem_shapes {p q : Planet} {kind : AspectKind} :
    (p, q, kind) ∈ (computeSynastry ours theirs).map shapeOf ↔
      Meets ours theirs p q kind := by
  simp only [computeSynastry, List.mem_map, List.mem_flatMap, List.mem_filterMap, Meets,
    Option.map_eq_some_iff]
  constructor
  · rintro ⟨-, ⟨pa, -, pb, -, found, here, rfl⟩, same⟩
    obtain ⟨rfl, rfl, rfl⟩ := by simpa [shapeOf] using same
    exact ⟨found, here, rfl⟩
  · rintro ⟨found, here, rfl⟩
    exact ⟨_, ⟨p, p.mem_all, q, q.mem_all, found, here, rfl⟩, rfl⟩

theorem nodup_shapes : ((computeSynastry ours theirs).map shapeOf).Nodup := by
  rw [computeSynastry, List.map_flatMap, List.nodup_flatMap]
  simp only [List.map_filterMap, Option.map_map]
  refine ⟨fun p _ => nodup_planets.filterMap fun q q' t here here' => ?_, ?_⟩
  · simp only [Option.mem_def, Option.map_eq_some_iff] at here here'
    obtain ⟨found, here, rfl⟩ := here
    obtain ⟨found', here', same⟩ := here'
    exact (Prod.mk.inj (Prod.mk.inj same).2).1.symm
  · refine nodup_planets.imp fun {p p'} ne => ?_
    rw [Function.onFun, List.disjoint_left]
    intro t here here'
    simp only [List.mem_filterMap, Option.map_eq_some_iff] at here here'
    obtain ⟨q, -, found, here, rfl⟩ := here
    obtain ⟨q', -, found', here', same⟩ := here'
    exact ne (Prod.mk.inj same).1.symm

theorem countP_of_nodup {α : Type*} [DecidableEq α] {l : List α} (nodup : l.Nodup) (x : α) :
    (l.countP fun a => a = x) = if x ∈ l then 1 else 0 := by
  rw [← nodup.count, List.count]
  simp only [beq_eq_decide]

theorem countP_two {α : Type*} [DecidableEq α] {x y : α} (ne : x ≠ y) (l : List α) :
    (l.countP fun a => a = x ∨ a = y) =
      (l.countP fun a => a = x) + l.countP fun a => a = y := by
  induction l with
  | nil => rfl
  | cons a l ih =>
    rw [List.countP_cons, List.countP_cons, List.countP_cons, ih]
    grind

/-- Aspects are called alike if they are between the same bodies, whoever's these are. -/
theorem title_eq_iff (U : Uppercase) {p q : Planet} {kind : AspectKind} {aspect : SynastryAspect} :
    (InterpKey.synastry aspect.sig).plainName U =
        (InterpKey.synastry (aspectSig p q kind)).plainName U ↔
      shapeOf aspect = (p, q, kind) ∨ shapeOf aspect = (q, p, kind) := by
  have alike : (InterpKey.synastry aspect.sig).plainName U =
      (InterpKey.synastry (aspectSig p q kind)).plainName U ↔
        aspect.sig = aspectSig p q kind := by
    constructor
    · intro same
      exact InterpKey.synastry.inj (plainName_inj U (built_fromSynastry aspect)
        (isAspectSig_aspectSig p q kind) rfl same)
    · intro same
      rw [same]
  rw [alike, SynastryAspect.sig, aspectSig_eq_iff, shapeOf]
  grind

/-- **How many rows of a synastry are called alike.** -/
theorem synastry_rows (U : Uppercase) (ours theirs : PlanetPositions) (p q : Planet)
    (kind : AspectKind) :
    let rows := synastryItems U (computeSynastry ours theirs)
    let key := InterpKey.synastry (aspectSig p q kind)
    (rows.countP fun row => row.title = key.plainName U) =
      (if Meets ours theirs p q kind then 1 else 0) +
        (if p ≠ q ∧ Meets ours theirs q p kind then 1 else 0) ∧
    ∀ row ∈ rows, (row.title = key.plainName U ↔ row.keys.map KeyEntry.key = [key]) := by
  intro rows key
  have titles : (rows.countP fun row => row.title = key.plainName U) =
      ((computeSynastry ours theirs).map shapeOf).countP
        fun t => t = (p, q, kind) ∨ t = (q, p, kind) := by
    rw [List.countP_map]
    refine List.countP_map.trans (List.countP_congr fun aspect _ => ?_)
    simp only [Function.comp_apply, decide_eq_true_eq]
    exact title_eq_iff U
  have once (p q : Planet) :
      (((computeSynastry ours theirs).map shapeOf).countP fun t => t = (p, q, kind)) =
        if Meets ours theirs p q kind then 1 else 0 := by
    rw [countP_of_nodup nodup_shapes]
    simp only [mem_shapes]
  refine ⟨?_, fun row mem => ?_⟩
  · rw [titles]
    by_cases same : p = q
    · subst same
      rw [← once p p]
      simp
    · have ne : (p, q, kind) ≠ (q, p, kind) := fun swap => same (Prod.mk.inj swap).1
      rw [countP_two ne, once p q, once q p]
      simp [same]
  · obtain ⟨aspect, -, rfl⟩ := List.mem_map.1 mem
    rw [aspectItem, List.map_singleton, List.singleton_inj]
    dsimp only
    rw [title_eq_iff, InterpKey.synastry.injEq, SynastryAspect.sig, aspectSig_eq_iff, shapeOf]
    grind

end Synastry

end Zodia.App
