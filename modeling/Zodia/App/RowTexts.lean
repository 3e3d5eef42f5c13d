import Zodia.Core.KeyTexts
import Zodia.Lib.Query
import Zodia.Lib.Utf8
import Zodia.Store.Feed

/-!
# The texts of rows and cards

Cards of the feed (`app/src/feed_view.rs`) are titled by the badge of their key's kind and the
name of the key, both taken from its string. The network tab (`app/src/network_tab.rs`) lists the
newest contributions by a text of its own, and cuts long ones after 120 bytes, which panics if a
character goes on there.

## Main definitions

* `communityTitle`, `formatInterpKey` — the title of a card, and the two texts of a row.
* `contributionRows` — the rows of the newest contributions.

## Main results

* `card_titles_identify` — two built keys have one title only if they are one key.
* `contributionRows_panics` — when the network tab panics, and how one text keeps it so.
-/

namespace Zodia.App

open Lib Zodia.Core Zodia.Store

/-! ## Titles of cards -/

/-- The title of a card that mixes with cards of other kinds. -/
def communityTitle (key body : List Char) : List Char :=
  (kindLabelForSig key).toList ++ " · ".toList ++ body

/-- The title of the card of a key's string. -/
def keyTitle (U : Uppercase) (sig : List Char) : List Char :=
  communityTitle sig (humanizeKey U sig)

theorem not_mem_interpKindLabel (kind : InterpKind) : '·' ∉ (interpKindLabel kind).toList := by
  cases kind <;> decide

theorem label_inj {kind kind' : InterpKind}
    (h : (interpKindLabel kind).toList = (interpKindLabel kind').toList) :
    interpKindLabel kind = interpKindLabel kind' := String.toList_inj.1 h

/-- The card of a built key shows the badge of its kind and its name, and no other built key has
this title. -/
theorem card_titles_identify (U : Uppercase) {k k' : InterpKey} (built : k.Built)
    (built' : k'.Built) :
    keyTitle U k.toSig = (interpKindLabel k.kind).toList ++ " · ".toList ++ k.plainName U ∧
      (keyTitle U k.toSig = keyTitle U k'.toSig ↔ k = k') := by
  have title {k : InterpKey} (built : k.Built) :
      keyTitle U k.toSig = (interpKindLabel k.kind).toList ++ " · ".toList ++ k.plainName U := by
    rw [keyTitle, communityTitle, humanizeKey_toSig U built, kindLabelForSig_eq]
  refine ⟨title built, ?_, fun same => same ▸ rfl⟩
  intro same
  rw [title built, title built'] at same
  have split {kind : InterpKind} {name : List Char} :
      splitOnce '·' ((interpKindLabel kind).toList ++ " · ".toList ++ name) =
        some ((interpKindLabel kind).toList ++ [' '], ' ' :: name) := by
    have noDot : '·' ∉ (interpKindLabel kind).toList ++ [' '] := by
      simp [not_mem_interpKindLabel]
    rw [← splitOnce_append noDot (' ' :: name)]
    simp
  have parts := congrArg (splitOnce '·') same
  rw [split, split] at parts
  obtain ⟨labels, names⟩ := Prod.ext_iff.1 (Option.some.inj parts)
  exact plainName_inj U built built' (label_inj (List.append_cancel_right labels))
    (List.cons.inj names).2

theorem card_titles_identify_moon :
    let k := InterpKey.placement .moon 5 (some 9)
    let k' := InterpKey.transit .moon .moon .semiSextile
    keyTitle .asciiOnly k.toSig =
        (interpKindLabel k.kind).toList ++ " · ".toList ++ k.plainName .asciiOnly ∧
      (keyTitle .asciiOnly k.toSig = keyTitle .asciiOnly k'.toSig ↔ k = k') :=
  card_titles_identify .asciiOnly (show (5 : Fin 256).val < 12 by decide) trivial

/-! ## Rows of the network tab -/

/-- The badge of a contribution. -/
def contributionLabel (kind : List Char) : List Char :=
  if kind = "natal".toList then "Natal".toList
  else if kind = "synastry".toList then "Synastry".toList
  else if kind = "transit".toList then "Transit".toList
  else if kind = "house_transit".toList then "House transit".toList
  else if kind = "placement".toList then "Placement".toList
  else if kind = "placement_angle".toList then "Placement (angle)".toList
  else kind

/-- The badge and the description of a contribution. -/
def formatInterpKey (U : Uppercase) (key : List Char) : List Char × List Char :=
  let parts := splitKind key
  (contributionLabel parts.1, cap U (parts.2.map fun c => if c = '_' then ' ' else c))

/-! ## The newest contributions -/

/-- How many bytes of a contribution are shown. -/
def previewBytes : ℕ := 120

/-- The preview of a contribution. -/
def bodyPreview (body : List Char) : Option (List Char) :=
  if previewBytes < utf8Len body then (sliceTo previewBytes body).map (· ++ ['…']) else some body

theorem bodyPreview_eq_none_iff {body : List Char} :
    bodyPreview body = none ↔ SplitAt previewBytes body := by
  unfold bodyPreview
  split_ifs with long
  · rw [Option.map_eq_none_iff, sliceTo_eq_none_iff long.le]
  · refine iff_of_false (by simp) ?_
    rintro ⟨a, c, b, rfl, -, after⟩
    simp only [utf8Len, List.map_append, List.map_cons, List.sum_append, List.sum_cons] at *
    omega

/-- A row of the newest contributions. -/
structure ContributionRow where
  label : List Char
  title : List Char
  preview : List Char
  deriving DecidableEq

section Contributions

variable {Digest Sig : Type*}

def contributionRow (U : Uppercase) (r : InterpRow Digest Sig) : Option ContributionRow :=
  (bodyPreview r.body.toList).map fun preview =>
    let key := formatInterpKey U r.interpKey.toList
    ⟨key.1, key.2, preview⟩

/-- The rows are built one after the other, and the first panic ends the redraw. -/
def contributionRows (U : Uppercase) (recent : List (InterpRow Digest Sig)) :
    Option (List ContributionRow) := recent.mapM (contributionRow U)

theorem contributionRows_eq_none_iff (U : Uppercase) {recent : List (InterpRow Digest Sig)} :
    contributionRows U recent = none ↔ ∃ r ∈ recent, SplitAt previewBytes r.body.toList := by
  unfold contributionRows
  induction recent with
  | nil => simp
  | cons r recent ih =>
    have first : contributionRow U r = none ↔ SplitAt previewBytes r.body.toList := by
      rw [contributionRow, Option.map_eq_none_iff, bodyPreview_eq_none_iff]
    rw [List.mapM_cons, List.exists_mem_cons_iff, ← ih, ← first]
    cases contributionRow U r <;> cases List.mapM (contributionRow U) recent <;> simp

/-- How many contributions the network tab asks for. -/
def recentLimit : ℕ := 12

/-- The network tab panics exactly if one of the contributions it got would be cut inside a
character; one such contribution keeps it panicking, whatever order the store returns rows of one
time in, as long as no twelve others are as new. -/
theorem contributionRows_panics (U : Uppercase) (t : Interpretations Digest Sig) :
    (∀ out, RecentCommunityInterps t recentLimit out →
      (contributionRows U out = none ↔ ∃ r ∈ out, SplitAt previewBytes r.body.toList)) ∧
    ∀ r ∈ t.rows, r.isBaseline = false → r.authorSig.isSome → SplitAt previewBytes r.body.toList →
      (t.rows.countP fun r' => !r'.isBaseline && r'.authorSig.isSome &&
        decide (r.receivedAt ≤ r'.receivedAt)) ≤ recentLimit →
      ∀ out, RecentCommunityInterps t recentLimit out → contributionRows U out = none := by
  refine ⟨fun out _ => contributionRows_eq_none_iff U, ?_⟩
  intro r mem contributed signed split few out query
  refine (contributionRows_eq_none_iff U).2 ⟨r, ?_, split⟩
  set shared := t.rows.filter fun r => !r.isBaseline && r.authorSig.isSome
  have listed : r ∈ shared := List.mem_filter.2 ⟨mem, by simp [contributed, signed]⟩
  obtain ⟨dropped, perm, before⟩ := Arranged.exists_dropped query
  by_contra cut
  have lost : r ∈ dropped := (List.mem_append.1 (perm.symm.subset listed)).resolve_left cut
  have newer := before r lost
  have one : 0 < dropped.countP fun r' => decide (r.receivedAt ≤ r'.receivedAt) :=
    List.countP_pos_iff.2 ⟨r, lost, by simp⟩
  have both := perm.countP_eq fun r' => decide (r.receivedAt ≤ r'.receivedAt)
  rw [List.countP_append, List.countP_filter] at both
  simp only [Bool.and_comm] at few both
  omega

/-- A text of 119 letters and one with an accent. -/
theorem contributionRows_panics_accent :
    let body := String.ofList (List.replicate 119 'a' ++ ['é'])
    let r : InterpRow ℕ ℕ := ⟨0, "natal:moon_trine_venus", "natal", body, none, some 0, none, 0,
      false, false⟩
    ∀ out, RecentCommunityInterps ⟨[r], List.nodup_singleton _⟩ recentLimit out →
      contributionRows .asciiOnly out = none := by
  intro body r
  refine (contributionRows_panics .asciiOnly ⟨[r], List.nodup_singleton _⟩).2 r
    List.mem_cons_self rfl rfl ⟨List.replicate 119 'a', 'é', [], ?_, ?_, ?_⟩ ?_
  · exact String.toList_ofList
  · decide +kernel
  · decide +kernel
  · exact List.countP_le_length.trans (by decide)

end Contributions

end Zodia.App
