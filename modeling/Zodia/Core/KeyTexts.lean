import Zodia.Core.ChartAspects

/-!
# The texts of keys

What `core/src/interp.rs` shows for a key: the label of its kind and a plain-English name. Both
are written twice, for a key and for its string, since the activity feed has only the string; the
function on strings takes a string apart again.

The upper case of a character outside ASCII is the standard library's.

## Main definitions

* `InterpKey.plainName` — the name of a key.
* `humanizeKey`, `kindLabelForSig` — the name and the label of the kind, from a string.
* `InterpKey.Built` — the keys the program builds from charts and the sky.

## Main results

* `humanizeKey_toSig`, `kindLabelForSig_toSig` — the string of a built key is shown as the key.
* `plainName_inj` — within one label a name belongs to one built key.
-/

namespace Zodia.Core

open Lib Decimal

/-! ## Capital letters -/

/-- The upper case of a character, which may be several (`char::to_uppercase`). -/
structure Uppercase where
  upper : Char → List Char
  ascii : ∀ c : Char, c.toNat < 128 → upper c = [c.toUpper]

/-- The upper case of ASCII letters; every other character stays as it is. -/
def Uppercase.asciiOnly : Uppercase where
  upper c := [c.toUpper]
  ascii _ _ := rfl

/-- The text with its first character in upper case. -/
def cap (U : Uppercase) : List Char → List Char
  | [] => []
  | c :: s => U.upper c ++ s

theorem cap_eq_ascii (U : Uppercase) {l : List Char} (ascii : l.all fun c => c.toNat < 128) :
    cap U l = cap .asciiOnly l := by
  cases l with
  | nil => rfl
  | cons c l =>
    have first := List.all_eq_true.1 ascii c List.mem_cons_self
    rw [cap, cap, U.ascii c (of_decide_eq_true first)]
    rfl

/-! ## Names -/

def Planet.capName (p : Planet) : List Char := cap .asciiOnly p.name

def signCapName (sign : Fin 256) : List Char := cap .asciiOnly (signNameLower sign)

theorem cap_name (U : Uppercase) (p : Planet) : cap U p.name = p.capName := by
  refine cap_eq_ascii U ?_
  cases p <;> decide

theorem cap_signNameLower (U : Uppercase) {sign : Fin 256} (lt : sign.val < 12) :
    cap U (signNameLower sign) = signCapName sign := by
  have each : ∀ sign ∈ signs, (signNameLower sign).all fun c => c.toNat < 128 := by
    decide +kernel
  exact cap_eq_ascii U (each sign (mem_signs.2 lt))

theorem Planet.capName_inj {p q : Planet} (h : p.capName = q.capName) : p = q := by
  revert h
  cases p <;> cases q <;> decide

theorem Planet.not_mem_capName (p : Planet) : ' ' ∉ p.capName ∧ '·' ∉ p.capName := by
  cases p <;> decide

theorem signCapName_inj {s t : Fin 256} (hs : s.val < 12) (ht : t.val < 12)
    (h : signCapName s = signCapName t) : s = t := by
  have each : ∀ s ∈ signs, ∀ t ∈ signs, signCapName s = signCapName t → s = t := by decide +kernel
  exact each s (mem_signs.2 hs) t (mem_signs.2 ht) h

theorem not_mem_signCapName {s : Fin 256} (hs : s.val < 12) : ',' ∉ signCapName s := by
  have each : ∀ s ∈ signs, ',' ∉ signCapName s := by decide +kernel
  exact each s (mem_signs.2 hs)

def AspectKind.displayName : AspectKind → List Char
  | conjunction => "conjunction".toList
  | semiSextile => "semi-sextile".toList
  | sextile => "sextile".toList
  | square => "square".toList
  | trine => "trine".toList
  | quincunx => "quincunx".toList
  | opposition => "opposition".toList

theorem AspectKind.displayName_inj {k k' : AspectKind} (h : k.displayName = k'.displayName) :
    k = k' := by
  revert h
  cases k <;> cases k' <;> decide

theorem AspectKind.not_mem_displayName (k : AspectKind) : ' ' ∉ k.displayName := by
  cases k <;> decide

def Angle.displayName : Angle → List Char
  | ascendant => "Ascendant".toList
  | midheaven => "Midheaven".toList

/-- Broad category of an interpretation. -/
inductive InterpKind where
  | natal
  | synastry
  | transit
  | skyAspect
  | houseTransit
  | placement
  | placementAngle
  deriving DecidableEq

def InterpKey.kind : InterpKey → InterpKind
  | natal _ => .natal
  | synastry _ => .synastry
  | transit _ _ _ => .transit
  | skyAspect _ => .skyAspect
  | houseTransit _ _ => .houseTransit
  | placement _ _ _ => .placement
  | placementAngle _ _ => .placementAngle

/-! ## The name of a key -/

/-- Two names around that of an aspect. -/
def aspectText (a : List Char) (kind : AspectKind) (b : List Char) : List Char :=
  a ++ ' ' :: (kind.displayName ++ ' ' :: b)

/-- A text cut at its separators (`str::split`), its parts capitalised and joined. -/
def capWords (U : Uppercase) (words : List (List Char)) : List Char :=
  List.intercalate [' '] (words.map (cap U))

/-- The first aspect name that is found splits the string. -/
def parseAspectSig (U : Uppercase) (sig : List Char) : List AspectKind → List Char
  | [] => capWords U (sig.splitOn '_')
  | kind :: kinds =>
    match splitAtFirst kind.needle sig with
    | some (a, b) => aspectText (cap U a) kind (cap U b)
    | none => parseAspectSig U sig kinds

def transitingHouse (planet house : List Char) : List Char :=
  planet ++ " transiting ".toList ++ house ++ " house".toList

def inSign (body sign : List Char) : List Char := body ++ " in ".toList ++ sign

def inSignAndHouse (body sign house : List Char) : List Char :=
  inSign body sign ++ ", House ".toList ++ house

/-- Plain-English label suitable for UI display. -/
def InterpKey.plainName (U : Uppercase) : InterpKey → List Char
  | natal aspectSig | synastry aspectSig | skyAspect aspectSig =>
    parseAspectSig U aspectSig transitKinds
  | transit transiting natalBody kind =>
    aspectText (cap U transiting.name) kind (cap U natalBody.name)
  | houseTransit transiting house =>
    transitingHouse (cap U transiting.name) (Nat.toDigits 10 house)
  | placement planet sign (some house) =>
    inSignAndHouse (cap U planet.name) (cap U (signNameLower sign)) (Nat.toDigits 10 house)
  | placement planet sign none => inSign (cap U planet.name) (cap U (signNameLower sign))
  | placementAngle angle sign => inSign angle.displayName (cap U (signNameLower sign))

/-! ## The name from a string -/

/-- The part before the first colon and the part after it; the whole string is the second if there
is no colon. -/
def splitKind (sig : List Char) : List Char × List Char := (splitOnce ':' sig).getD ([], sig)

/-- The phrase of the kinds that have one of their own. -/
def variantPhrase (U : Uppercase) (kind rest : List Char) : Option (List Char) :=
  if kind = "house_transit".toList then
    (splitOnce ':' rest).map fun parts => transitingHouse (cap U parts.1) parts.2
  else if kind = "placement".toList ∧ ':' ∈ rest then
    match splitn ':' 3 rest with
    | planet :: sign :: parts =>
      match parts.head? with
      | some house => some (inSignAndHouse (cap U planet) (cap U sign) house)
      | none => some (inSign (cap U planet) (cap U sign))
    | _ => none
  else if kind = "placement_angle".toList ∧ ':' ∈ rest then
    (splitOnce ':' rest).map fun parts =>
      let angle :=
        if parts.1 = "asc".toList then "Ascendant".toList
        else if parts.1 = "mc".toList then "Midheaven".toList
        else parts.1
      inSign angle (cap U parts.2)
  else none

/-- Best-effort plain-English rendering of a canonical key string. -/
def humanizeKey (U : Uppercase) (sig : List Char) : List Char :=
  let parts := splitKind sig
  match variantPhrase U parts.1 parts.2 with
  | some phrase => phrase
  | none =>
    if '_' ∈ parts.2 ∧ ':' ∉ parts.2 then parseAspectSig U parts.2 transitKinds
    else capWords U ((sig.splitOnP fun c => c = ':' || c = '_').filter (· ≠ []))

/-- The badge of the kind that a string starts with. -/
def labelOfTag (kind : List Char) : String :=
  if kind = "natal".toList then "Natal"
  else if kind = "synastry".toList then "Synastry"
  else if kind = "transit".toList then "Transit"
  else if kind = "sky".toList then "Sky"
  else if kind = "house_transit".toList then "House transit"
  else if kind = "placement".toList ∨ kind = "placement_angle".toList then "Placement"
  else "Reading"

/-- Human-readable kind badge, straight from a canonical key string. -/
def kindLabelForSig (sig : List Char) : String :=
  labelOfTag (((splitOnce ':' sig).map Prod.fst).getD sig)

/-! ## Built keys -/

/-- The string is that of an aspect of two planets. -/
def IsAspectSig (sig : List Char) : Prop :=
  ∃ (p q : Planet) (kind : AspectKind), sig = p.name ++ (kind.needle ++ q.name)

/-- The keys that the program builds: the string of an aspect is that of two planets, and a sign
is one of the twelve. -/
def InterpKey.Built : InterpKey → Prop
  | natal sig | synastry sig | skyAspect sig => IsAspectSig sig
  | placement _ sign _ | placementAngle _ sign => sign.val < 12
  | _ => True

theorem isAspectSig_aspectSig (a b : Planet) (kind : AspectKind) :
    IsAspectSig (aspectSig a b kind) := by
  unfold aspectSig sortedNames
  split_ifs
  · exact ⟨a, b, kind, by simp [AspectKind.needle]⟩
  · exact ⟨b, a, kind, by simp [AspectKind.needle]⟩

theorem built_fromNatal (aspect : Aspect) : (InterpKey.natal aspect.sig).Built :=
  isAspectSig_aspectSig ..

theorem built_fromSynastry (aspect : SynastryAspect) : (InterpKey.synastry aspect.sig).Built :=
  isAspectSig_aspectSig ..

/-- The order in which aspect names are looked for finds the right one. -/
theorem parseAspectSig_eq (U : Uppercase) (p q : Planet) (kind : AspectKind) :
    parseAspectSig U (p.name ++ (kind.needle ++ q.name)) transitKinds =
      aspectText p.capName kind q.capName := by
  rw [← cap_name U p, ← cap_name U q]
  cases kind <;> simp [transitKinds, parseAspectSig, splitAtFirst_needle]

theorem not_mem_toDigits (n : ℕ) {c : Char} (other : c.isDigit = false) :
    c ∉ Nat.toDigits 10 n := by
  intro mem
  have digit := Nat.isDigit_of_mem_toDigits (by omega) (by omega) mem
  simp [other] at digit

theorem splitKind_toSig (k : InterpKey) :
    splitKind k.toSig = (k.tag, k.body fun house => Nat.toDigits 10 house) := by
  rw [splitKind, InterpKey.toSig, InterpKey.sigWith_eq, splitOnce_append k.not_mem_tag]
  rfl

/-- The string of a built aspect has an underscore and no colon. -/
theorem aspectSig_shape (p q : Planet) (kind : AspectKind) :
    '_' ∈ p.name ++ (kind.needle ++ q.name) ∧ ':' ∉ p.name ++ (kind.needle ++ q.name) := by
  constructor
  · simp [AspectKind.needle]
  · have needle : ':' ∉ kind.needle := by cases kind <;> decide
    simp [p.not_mem_name.1, q.not_mem_name.1, needle]

/-- A string whose kind has no phrase of its own is read as an aspect if it looks like one. -/
theorem humanizeKey_of_aspect (U : Uppercase) {k : InterpKey} {p q : Planet} {kind : AspectKind}
    (plain : ∀ rest, variantPhrase U k.tag rest = none)
    (body : (k.body fun house => Nat.toDigits 10 house) = p.name ++ (kind.needle ++ q.name)) :
    humanizeKey U k.toSig = aspectText p.capName kind q.capName := by
  unfold humanizeKey
  rw [splitKind_toSig]
  simp only [plain, body, if_pos (aspectSig_shape p q kind)]
  exact parseAspectSig_eq U p q kind

theorem humanizeKey_of_phrase (U : Uppercase) {k : InterpKey} {phrase : List Char}
    (own : variantPhrase U k.tag (k.body fun house => Nat.toDigits 10 house) = some phrase) :
    humanizeKey U k.toSig = phrase := by
  unfold humanizeKey
  rw [splitKind_toSig]
  simp only [own]

theorem variantPhrase_houseTransit (U : Uppercase) (p : Planet) (house : List Char) :
    variantPhrase U "house_transit".toList (p.name ++ ':' :: house) =
      some (transitingHouse (cap U p.name) house) := by
  rw [variantPhrase, if_pos rfl, splitOnce_append p.not_mem_name.1]
  rfl

theorem variantPhrase_placement (U : Uppercase) (p : Planet) {sign : Fin 256}
    (lt : sign.val < 12) :
    variantPhrase U "placement".toList (p.name ++ ':' :: signNameLower sign) =
      some (inSign (cap U p.name) (cap U (signNameLower sign))) := by
  have single : splitOnce ':' (signNameLower sign) = none :=
    splitOnce_eq_none.2 (not_mem_signNameLower lt)
  rw [variantPhrase, if_neg (by decide), if_pos ⟨rfl, by simp⟩, splitn_three,
    splitOnce_append p.not_mem_name.1]
  simp only [single, List.head?_nil]

theorem variantPhrase_placement_house (U : Uppercase) (p : Planet) {sign : Fin 256}
    (lt : sign.val < 12) (house : List Char) :
    variantPhrase U "placement".toList (p.name ++ ':' :: (signNameLower sign ++ ':' :: house)) =
      some (inSignAndHouse (cap U p.name) (cap U (signNameLower sign)) house) := by
  rw [variantPhrase, if_neg (by decide), if_pos ⟨rfl, by simp⟩, splitn_three,
    splitOnce_append p.not_mem_name.1]
  simp only [splitOnce_append (not_mem_signNameLower lt), List.head?_cons]

theorem variantPhrase_placementAngle (U : Uppercase) (angle : Angle) (sign : Fin 256) :
    variantPhrase U "placement_angle".toList (angle.tag ++ ':' :: signNameLower sign) =
      some (inSign angle.displayName (cap U (signNameLower sign))) := by
  have single : ':' ∉ angle.tag := by cases angle <;> decide
  rw [variantPhrase, if_neg (by decide), if_neg (by simp), if_pos ⟨rfl, by simp⟩,
    splitOnce_append single]
  cases angle <;> rfl

/-- The keys whose string is that of an aspect. -/
def InterpKey.IsAspect : InterpKey → Prop
  | natal _ | synastry _ | skyAspect _ | transit _ _ _ => True
  | _ => False

theorem variantPhrase_aspect (U : Uppercase) {k : InterpKey} (aspect : k.IsAspect)
    (rest : List Char) : variantPhrase U k.tag rest = none := by
  have other : k.tag ≠ "house_transit".toList ∧ k.tag ≠ "placement".toList ∧
      k.tag ≠ "placement_angle".toList := by
    cases k <;> first | exact aspect.elim | exact ⟨of_decide_eq_true rfl, of_decide_eq_true rfl,
      of_decide_eq_true rfl⟩
  rw [variantPhrase, if_neg other.1, if_neg fun h => other.2.1 h.1,
    if_neg fun h => other.2.2 h.1]

/-- The string of a built key is shown by the name of the key. -/
theorem humanizeKey_toSig (U : Uppercase) {k : InterpKey} (built : k.Built) :
    humanizeKey U k.toSig = k.plainName U := by
  cases k with
  | natal sig =>
    obtain ⟨p, q, kind, rfl⟩ := built
    rw [InterpKey.plainName, parseAspectSig_eq]
    exact humanizeKey_of_aspect U (variantPhrase_aspect U trivial) rfl
  | synastry sig =>
    obtain ⟨p, q, kind, rfl⟩ := built
    rw [InterpKey.plainName, parseAspectSig_eq]
    exact humanizeKey_of_aspect U (variantPhrase_aspect U trivial) rfl
  | skyAspect sig =>
    obtain ⟨p, q, kind, rfl⟩ := built
    rw [InterpKey.plainName, parseAspectSig_eq]
    exact humanizeKey_of_aspect U (variantPhrase_aspect U trivial) rfl
  | transit p q kind =>
    rw [InterpKey.plainName, cap_name, cap_name]
    exact humanizeKey_of_aspect U (variantPhrase_aspect U trivial) rfl
  | houseTransit p house => exact humanizeKey_of_phrase U (variantPhrase_houseTransit U p _)
  | placement p sign house =>
    cases house with
    | none => exact humanizeKey_of_phrase U (variantPhrase_placement U p built)
    | some house => exact humanizeKey_of_phrase U (variantPhrase_placement_house U p built _)
  | placementAngle angle sign =>
    exact humanizeKey_of_phrase U (variantPhrase_placementAngle U angle sign)

/-! ## The key from its name -/

theorem aspectText_inj {p q p' q' : Planet} {kind kind' : AspectKind}
    (h : aspectText p.capName kind q.capName = aspectText p'.capName kind' q'.capName) :
    p = p' ∧ kind = kind' ∧ q = q' := by
  have first := congrArg (splitOnce ' ') h
  rw [aspectText, aspectText, splitOnce_append p.not_mem_capName.1,
    splitOnce_append p'.not_mem_capName.1] at first
  obtain ⟨hp, rest⟩ := Prod.ext_iff.1 (Option.some.inj first)
  have second := congrArg (splitOnce ' ') rest
  dsimp only at second
  rw [splitOnce_append kind.not_mem_displayName, splitOnce_append kind'.not_mem_displayName]
    at second
  obtain ⟨hk, hq⟩ := Prod.ext_iff.1 (Option.some.inj second)
  exact ⟨Planet.capName_inj hp, AspectKind.displayName_inj hk, Planet.capName_inj hq⟩

/-- Two texts that go on with a blank after names without one have the same name. -/
theorem append_blank_inj {a b s t : List Char} (ha : ' ' ∉ a) (hb : ' ' ∉ b)
    (h : a ++ ' ' :: s = b ++ ' ' :: t) : a = b ∧ s = t := by
  have parts := congrArg (splitOnce ' ') h
  rw [splitOnce_append ha, splitOnce_append hb] at parts
  exact Prod.ext_iff.1 (Option.some.inj parts)

theorem transitingHouse_inj {p p' : Planet} {m n : ℕ}
    (h : transitingHouse p.capName (Nat.toDigits 10 m) =
      transitingHouse p'.capName (Nat.toDigits 10 n)) : p = p' ∧ m = n := by
  simp only [transitingHouse, List.append_assoc] at h
  obtain ⟨hp, rest⟩ := append_blank_inj p.not_mem_capName.1 p'.not_mem_capName.1 h
  have digits := List.append_cancel_right (List.append_cancel_left rest)
  exact ⟨Planet.capName_inj hp, toDigits_inj digits⟩

/-- What the name of a placement ends with if the house is known. -/
def houseSuffix (house : Option (Fin 256)) : List Char :=
  (house.map fun n => ',' :: (" House ".toList ++ Nat.toDigits 10 n.val)).getD []

theorem houseSuffix_some (n : Fin 256) :
    houseSuffix (some n) = ',' :: (" House ".toList ++ Nat.toDigits 10 n.val) := rfl

theorem append_houseSuffix_none (l : List Char) : l ++ houseSuffix none = l := List.append_nil l

theorem signAndHouse_inj {s t : Fin 256} (hs : s.val < 12) (ht : t.val < 12)
    {house house' : Option (Fin 256)}
    (h : signCapName s ++ houseSuffix house = signCapName t ++ houseSuffix house') :
    s = t ∧ house = house' := by
  have noComma := not_mem_signCapName hs
  have noComma' := not_mem_signCapName ht
  cases house with
  | none =>
    rw [append_houseSuffix_none] at h
    cases house' with
    | none =>
      rw [append_houseSuffix_none] at h
      exact ⟨signCapName_inj hs ht h, rfl⟩
    | some n =>
      rw [h, houseSuffix_some] at noComma
      exact absurd (by simp) noComma
  | some m =>
    cases house' with
    | none =>
      rw [append_houseSuffix_none, houseSuffix_some] at h
      rw [← h] at noComma'
      exact absurd (by simp) noComma'
    | some n =>
      rw [houseSuffix_some, houseSuffix_some] at h
      have cut := congrArg (splitOnce ',') h
      rw [splitOnce_append noComma, splitOnce_append noComma'] at cut
      obtain ⟨sign, rest⟩ := Prod.ext_iff.1 (Option.some.inj cut)
      have digits := toDigits_inj (List.append_cancel_left rest)
      exact ⟨signCapName_inj hs ht sign, congrArg some (Fin.ext digits)⟩

/-- The name of a placement: what is placed, its sign, and the house if it is known. -/
theorem plainName_placement (U : Uppercase) (p : Planet) {sign : Fin 256} (lt : sign.val < 12)
    (house : Option (Fin 256)) :
    (InterpKey.placement p sign house).plainName U =
      p.capName ++ ' ' :: ("in ".toList ++ (signCapName sign ++ houseSuffix house)) := by
  cases house with
  | none =>
    change inSign (cap U p.name) (cap U (signNameLower sign)) = _
    rw [cap_name, cap_signNameLower U lt, append_houseSuffix_none, inSign, List.append_assoc]
    rfl
  | some n =>
    change inSignAndHouse (cap U p.name) (cap U (signNameLower sign)) (Nat.toDigits 10 n.val) = _
    rw [cap_name, cap_signNameLower U lt, houseSuffix_some, inSignAndHouse, inSign]
    simp only [List.append_assoc]
    rfl

theorem plainName_placementAngle (U : Uppercase) (angle : Angle) {sign : Fin 256}
    (lt : sign.val < 12) :
    (InterpKey.placementAngle angle sign).plainName U =
      angle.displayName ++ ' ' :: ("in ".toList ++ (signCapName sign ++ houseSuffix none)) := by
  change inSign angle.displayName (cap U (signNameLower sign)) = _
  rw [cap_signNameLower U lt, append_houseSuffix_none, inSign, List.append_assoc]
  rfl

theorem Angle.displayName_spec (angle : Angle) :
    ' ' ∉ angle.displayName ∧ (∀ p : Planet, p.capName ≠ angle.displayName) ∧
      ∀ angle' : Angle, angle.displayName = angle'.displayName → angle = angle' := by
  refine ⟨?_, fun p => ?_, fun angle' => ?_⟩
  · cases angle <;> decide
  · cases angle <;> cases p <;> decide
  · cases angle <;> cases angle' <;> decide

theorem kindLabelForSig_toSig (k : InterpKey) : kindLabelForSig k.toSig = labelOfTag k.tag := by
  rw [kindLabelForSig, InterpKey.toSig, InterpKey.sigWith_eq, splitOnce_append k.not_mem_tag]
  rfl

/-- The badge of a kind, as the page of a key shows it. -/
def interpKindLabel : InterpKind → String
  | .natal => "Natal"
  | .synastry => "Synastry"
  | .transit => "Transit"
  | .skyAspect => "Sky"
  | .houseTransit => "House transit"
  | .placement | .placementAngle => "Placement"

/-- The badge that a key's string starts with is that of its kind. -/
theorem kindLabelForSig_eq (k : InterpKey) : kindLabelForSig k.toSig = interpKindLabel k.kind := by
  rw [kindLabelForSig_toSig]
  cases k <;> exact of_decide_eq_true rfl

/-- The badge tells the kind, but for the two kinds of placements. -/
theorem interpKindLabel_eq_iff {a b : InterpKind} : interpKindLabel a = interpKindLabel b ↔
    a = b ∨ (a = .placement ∧ b = .placementAngle) ∨ (a = .placementAngle ∧ b = .placement) := by
  cases a <;> cases b <;> decide

/-- Among built keys of one badge a name belongs to one key. -/
theorem plainName_inj (U : Uppercase) {k k' : InterpKey} (built : k.Built) (built' : k'.Built)
    (label : interpKindLabel k.kind = interpKindLabel k'.kind)
    (name : k.plainName U = k'.plainName U) : k = k' := by
  have aspect {sig sig' : List Char} (hs : IsAspectSig sig) (hs' : IsAspectSig sig')
      (same : parseAspectSig U sig transitKinds = parseAspectSig U sig' transitKinds) :
      sig = sig' := by
    obtain ⟨p, q, kind, rfl⟩ := hs
    obtain ⟨p', q', kind', rfl⟩ := hs'
    rw [parseAspectSig_eq, parseAspectSig_eq] at same
    obtain ⟨rfl, rfl, rfl⟩ := aspectText_inj same
    rfl
  have angleOrPlanet {p : Planet} {angle : Angle} {s t : List Char} :
      p.capName ++ ' ' :: s ≠ angle.displayName ++ ' ' :: t := fun same =>
    angle.displayName_spec.2.1 p
      (append_blank_inj p.not_mem_capName.1 angle.displayName_spec.1 same).1
  rcases interpKindLabel_eq_iff.1 label with same | ⟨planet, other⟩ | ⟨other, planet⟩
  · cases k with
    | natal sig =>
      cases k' with
      | natal sig' => exact congrArg _ (aspect built built' name)
      | _ => cases same
    | synastry sig =>
      cases k' with
      | synastry sig' => exact congrArg _ (aspect built built' name)
      | _ => cases same
    | skyAspect sig =>
      cases k' with
      | skyAspect sig' => exact congrArg _ (aspect built built' name)
      | _ => cases same
    | transit p q kind =>
      cases k' with
      | transit p' q' kind' =>
        simp only [InterpKey.plainName, cap_name] at name
        obtain ⟨rfl, rfl, rfl⟩ := aspectText_inj name
        rfl
      | _ => cases same
    | houseTransit p house =>
      cases k' with
      | houseTransit p' house' =>
        simp only [InterpKey.plainName, cap_name] at name
        obtain ⟨rfl, houses⟩ := transitingHouse_inj name
        rw [Fin.ext houses]
      | _ => cases same
    | placement p sign house =>
      cases k' with
      | placement p' sign' house' =>
        rw [plainName_placement U p built, plainName_placement U p' built'] at name
        obtain ⟨planet, rest⟩ := append_blank_inj p.not_mem_capName.1 p'.not_mem_capName.1 name
        obtain ⟨rfl, rfl⟩ := signAndHouse_inj built built' (List.append_cancel_left rest)
        rw [Planet.capName_inj planet]
      | _ => cases same
    | placementAngle angle sign =>
      cases k' with
      | placementAngle angle' sign' =>
        rw [plainName_placementAngle U angle built, plainName_placementAngle U angle' built']
          at name
        obtain ⟨angles, rest⟩ := append_blank_inj angle.displayName_spec.1
          angle'.displayName_spec.1 name
        obtain ⟨rfl, -⟩ := signAndHouse_inj built built' (List.append_cancel_left rest)
        rw [angle.displayName_spec.2.2 angle' angles]
      | _ => cases same
  · cases k with
    | placement p sign house =>
      cases k' with
      | placementAngle angle sign' =>
        rw [plainName_placement U p built, plainName_placementAngle U angle built'] at name
        exact absurd name angleOrPlanet
      | _ => cases other
    | _ => cases planet
  · cases k' with
    | placement p sign house =>
      cases k with
      | placementAngle angle sign' =>
        rw [plainName_placement U p built', plainName_placementAngle U angle built] at name
        exact absurd name.symm angleOrPlanet
      | _ => cases other
    | _ => cases planet

end Zodia.Core
