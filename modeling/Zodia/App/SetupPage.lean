import Mathlib.Data.Rat.Defs
import Zodia.Core.Cities
import Zodia.Lib.Run

/-!
# The birth place of the setup page

The page of `app/src/setup_page.rs` on which a new user enters the place of birth, either by
picking a city that the search finds for the typed text or by setting two numbers. What the
user sees is the text of the city entry with the coordinates below it, or the two numbers;
what is submitted is kept beside these, in `selectedLoc`, and every handler keeps it in step.

The names shown for a city and its coordinates are those of the table; without a table there
is only the section with the numbers.

## Main definitions

* `SetupState` — what the page shows and what it has selected.
* `SetupState.step` — the handlers of the page.
* `SetupState.begin` — what the page submits.

## Main results

* `submitted_is_shown` — with a table of cities, a place that is submitted is the one shown, the
  city's place if a city is named; a place that is shown can be submitted in every state exactly
  if the user never comes back to the search from the numbers while a city's place is shown.
* `without_cities_iff` — without a table, the place submitted is the one shown exactly if each of
  the numbers started at zero or was changed.
-/

namespace Zodia.App

open Lib Zodia.Core

/-- A latitude and a longitude. -/
abbrev Place := ℚ × ℚ

/-- How many cities the page lists. -/
def cityLimit : ℕ := 8

/-- The text of a result row. -/
def CityHit.label (h : CityHit ℚ) : List Char := h.name ++ ", ".toList ++ h.country

def CityHit.place (h : CityHit ℚ) : Place := (h.lat, h.lon)

/-- The rows of the page besides the place. -/
structure SetupForm where
  year : ℤ
  month : ℕ
  day : ℕ
  hour : ℕ
  minute : ℕ
  displayName : List Char
  deriving DecidableEq

def SetupForm.initial : SetupForm := ⟨1990, 6, 15, 12, 0, []⟩

/-- The page: which section is visible, the rows of each, and the selected place. `coordRow` is
the place in the row below the city entry, if there is one; the row prints four decimals of it. -/
structure SetupState where
  form : SetupForm
  manual : Bool
  cityText : List Char
  resultRows : List (CityHit ℚ)
  coordRow : Option Place
  lat : ℚ
  lon : ℚ
  selectedLoc : Option Place
  deriving DecidableEq

/-- What the button of the page sends. -/
inductive SetupPageOut where
  | submit (form : SetupForm) (place : Place)
  | error (text : String)
  deriving DecidableEq

inductive SetupEvent where
  | setForm (form : SetupForm)
  | typeCity (text : List Char)
  | pick (row : ℕ)
  | toManual
  | back
  | setLat (value : ℚ)
  | setLon (value : ℚ)
  deriving DecidableEq

section Page

variable (T : CityText ℚ) (cities : List (City ℚ))

/-- The page as it opens. The numbers start where the toolkit starts them. -/
def SetupState.new (lat lon : ℚ) : SetupState where
  form := .initial
  manual := cities.isEmpty
  cityText := []
  resultRows := []
  coordRow := none
  lat := lat
  lon := lon
  selectedLoc := if cities.isEmpty then some (0, 0) else none

/-- A handler of the page. Setting the text of a picked city does not start another search. -/
def SetupState.step (st : SetupState) : SetupEvent → SetupState
  | .setForm form => { st with form }
  | .typeCity text =>
    { st with
      cityText := text
      resultRows := searchCities T cities text cityLimit
      coordRow := none
      selectedLoc := none }
  | .pick row =>
    match st.resultRows[row]? with
    | none => st
    | some hit =>
      { st with
        cityText := CityHit.label hit
        resultRows := []
        coordRow := some (CityHit.place hit)
        selectedLoc := some (CityHit.place hit) }
  | .toManual => { st with manual := true, selectedLoc := some (st.lat, st.lon) }
  | .back => { st with manual := false, selectedLoc := none }
  | .setLat value =>
    { st with lat := value, selectedLoc := st.selectedLoc.map fun v => (value, v.2) }
  | .setLon value =>
    { st with lon := value, selectedLoc := st.selectedLoc.map fun v => (v.1, value) }

/-- The handlers a user can reach: those of the section that is visible, and the buttons between
the sections, which the page has only with a table of cities. A number tells of its value only
when it changes. -/
def SetupState.Enabled (st : SetupState) : SetupEvent → Prop
  | .setForm _ => True
  | .typeCity _ | .pick _ => st.manual = false
  | .toManual => st.manual = false ∧ cities ≠ []
  | .back => st.manual = true ∧ cities ≠ []
  | .setLat value => st.manual = true ∧ value ≠ st.lat
  | .setLon value => st.manual = true ∧ value ≠ st.lon

/-- The button of the page. -/
def SetupState.begin (st : SetupState) : SetupPageOut :=
  match st.selectedLoc with
  | some place => .submit st.form place
  | none => .error "Select a birth location"

/-- The place that the visible section shows. -/
def SetupState.shown (st : SetupState) : Option Place :=
  if st.manual then some (st.lat, st.lon) else st.coordRow

/-! ## What the handlers keep -/

/-- The city entry names a city of the table with the place `v`. -/
def SetupState.Names (st : SetupState) (v : Place) : Prop :=
  ∃ c ∈ cities, st.cityText = CityHit.label c.hit ∧ v = (c.lat, c.lon)

/-- Listed rows are cities of the table, a place below the entry is that of the city the entry
names, and what is selected is what is shown, unless nothing is. -/
structure SetupState.Inv (st : SetupState) : Prop where
  rows : ∀ h ∈ st.resultRows, ∃ c ∈ cities, h = c.hit
  named : ∀ v, st.coordRow = some v → st.Names cities v
  manual : st.manual = true → st.selectedLoc = some (st.lat, st.lon)
  city : st.manual = false → st.selectedLoc = none ∨ st.selectedLoc = st.coordRow

end Page

variable {T : CityText ℚ} {cities : List (City ℚ)} {st : SetupState}

theorem mem_of_mem_searchCities {text : List Char} {limit : ℕ} {h : CityHit ℚ}
    (mem : h ∈ searchCities T cities text limit) : ∃ c ∈ cities, h = c.hit := by
  unfold searchCities at mem
  split_ifs at mem with empty
  · cases mem
  · obtain ⟨c, found, rfl⟩ := List.mem_map.1 mem
    have scanned := List.takeWhile_sublist _ |>.subset (List.mem_of_mem_take found)
    exact ⟨c, List.mem_of_mem_drop scanned, rfl⟩

theorem SetupState.step_pick {row : ℕ} {hit : CityHit ℚ} (listed : st.resultRows[row]? = some hit) :
    st.step T cities (.pick row) =
      { st with
        cityText := CityHit.label hit
        resultRows := []
        coordRow := some (CityHit.place hit)
        selectedLoc := some (CityHit.place hit) } := by
  simp [step, listed]

theorem SetupState.step_pick_none {row : ℕ} (unlisted : st.resultRows[row]? = none) :
    st.step T cities (.pick row) = st := by
  simp [step, unlisted]

theorem SetupState.Inv.step (h : st.Inv cities) {e : SetupEvent} (can : st.Enabled cities e) :
    (st.step T cities e).Inv cities := by
  cases e with
  | setForm form => exact ⟨h.rows, h.named, h.manual, h.city⟩
  | typeCity text =>
    have searching : st.manual = false := can
    refine ⟨fun _ mem => mem_of_mem_searchCities mem, ?_, fun on => ?_, fun _ => .inl rfl⟩
    · simp [SetupState.step]
    · exact absurd (searching.symm.trans on) (by decide)
  | pick row =>
    have searching : st.manual = false := can
    cases listed : st.resultRows[row]? with
    | none => rwa [SetupState.step_pick_none listed]
    | some hit =>
      rw [SetupState.step_pick listed]
      obtain ⟨c, mem, rfl⟩ := h.rows hit (List.mem_of_getElem? listed)
      refine ⟨by simp, fun v same => ?_, fun on => ?_, fun _ => .inr rfl⟩
      · exact ⟨c, mem, rfl, (Option.some.inj same).symm⟩
      · exact absurd (searching.symm.trans on) (by decide)
  | toManual => exact ⟨h.rows, h.named, fun _ => rfl, fun off => by cases off⟩
  | back => exact ⟨h.rows, h.named, fun on => (by cases on), fun _ => .inl rfl⟩
  | setLat value =>
    have numbers : st.manual = true := can.1
    refine ⟨h.rows, h.named, fun _ => ?_, fun off => absurd (off.symm.trans numbers) (by decide)⟩
    simp [SetupState.step, h.manual numbers]
  | setLon value =>
    have numbers : st.manual = true := can.1
    refine ⟨h.rows, h.named, fun _ => ?_, fun off => absurd (off.symm.trans numbers) (by decide)⟩
    simp [SetupState.step, h.manual numbers]

theorem SetupState.inv_new (some_city : cities ≠ []) (lat lon : ℚ) :
    (SetupState.new cities lat lon).Inv cities where
  rows := by simp [SetupState.new]
  named := by simp [SetupState.new]
  manual := by simp [SetupState.new, some_city]
  city := by simp [SetupState.new, some_city]

/-! ## The selected place and the shown one -/

theorem SetupState.begin_eq_submit {form : SetupForm} {v : Place} :
    st.begin = .submit form v ↔ st.form = form ∧ st.selectedLoc = some v := by
  unfold SetupState.begin
  cases st.selectedLoc <;> simp

theorem SetupState.Inv.shown (h : st.Inv cities) {v : Place} (selected : st.selectedLoc = some v) :
    st.shown = some v := by
  unfold SetupState.shown
  split_ifs with numbers
  · rw [← selected, h.manual numbers]
  · rcases h.city (by simpa using numbers) with none | same
    · cases none.symm.trans selected
    · rw [← same, selected]

/-- If a place is shown, the button submits it. -/
def SetupState.Ready (st : SetupState) : Prop := st.shown ≠ none → st.selectedLoc ≠ none

/-- Only coming back from the numbers leaves a place shown that is not selected. -/
theorem SetupState.Inv.ready_step_iff (h : st.Inv cities) {e : SetupEvent}
    (can : st.Enabled cities e) (ready : st.Ready) :
    (st.step T cities e).Ready ↔ (e = .back → st.coordRow = none) := by
  cases e with
  | setForm form => exact iff_of_true ready fun same => by cases same
  | typeCity text =>
    have searching : st.manual = false := can
    simp [SetupState.Ready, SetupState.step, SetupState.shown, searching]
  | pick row =>
    cases listed : st.resultRows[row]? with
    | none => simpa [SetupState.step_pick_none listed] using ready
    | some hit => simp [SetupState.Ready, SetupState.step_pick listed]
  | toManual => simp [SetupState.Ready, SetupState.step]
  | back => simp [SetupState.Ready, SetupState.step, SetupState.shown]
  | setLat value => simp [SetupState.Ready, SetupState.step, h.manual can.1]
  | setLon value => simp [SetupState.Ready, SetupState.step, h.manual can.1]

/-- What is submitted is what is shown, and the city's place if a city is named; what is shown can
always be submitted exactly if nobody comes back to a city's place from the numbers. -/
theorem submitted_is_shown (some_city : cities ≠ []) {lat lon : ℚ} {es : List SetupEvent}
    (run : Along (SetupState.step T cities) (SetupState.Enabled cities)
      (.new cities lat lon) es) :
    Always (SetupState.step T cities) (fun st => ∀ form v, st.begin = .submit form v →
        form = st.form ∧ st.shown = some v ∧ (st.manual = false → st.Names cities v))
      (.new cities lat lon) es ∧
    (Always (SetupState.step T cities) (fun st => ∀ v, st.shown = some v →
        st.begin = .submit st.form v) (.new cities lat lon) es ↔
      Along (SetupState.step T cities) (fun st e => e = .back → st.coordRow = none)
        (.new cities lat lon) es) := by
  have start := SetupState.inv_new some_city lat lon
  constructor
  · refine Always.of_invariant (fun st e inv can => inv.step can) (fun st inv => ?_) start run
    intro form v submits
    obtain ⟨rfl, selected⟩ := SetupState.begin_eq_submit.1 submits
    refine ⟨rfl, inv.shown selected, fun searching => inv.named v ?_⟩
    have shown := inv.shown selected
    rwa [SetupState.shown, if_neg (by simp [searching])] at shown
  · have ready_iff : ∀ st : SetupState, st.Inv cities →
        ((∀ v, st.shown = some v → st.begin = .submit st.form v) ↔ st.Ready) := by
      intro st inv
      constructor
      · intro submits some_shown
        obtain ⟨v, shown⟩ := Option.ne_none_iff_exists'.1 some_shown
        simp [(SetupState.begin_eq_submit.1 (submits v shown)).2]
      · intro ready v shown
        obtain ⟨w, selected⟩ := Option.ne_none_iff_exists'.1 (ready (by simp [shown]))
        have same : v = w := Option.some.inj (shown.symm.trans (inv.shown selected))
        exact SetupState.begin_eq_submit.2 ⟨rfl, same ▸ selected⟩
    have unshown : (SetupState.new cities lat lon).shown = none := by
      simp [SetupState.shown, SetupState.new, some_city]
    rw [Along.always_iff (fun st e inv can => inv.step can) (fun st e inv can ready => ?_) start
      run, and_iff_right (by simp [unshown])]
    exact (ready_iff _ (inv.step can)).trans (inv.ready_step_iff can ((ready_iff st inv).1 ready))

/-- A table with one city; the user types its first letter and picks it. -/
theorem submitted_is_shown_bonn :
    let T : CityText ℚ := ⟨fun l => l.map Char.toLower, fun _ => none⟩
    let cities := [⟨"bonn".toList, "Bonn".toList, "DE".toList, 51, 7⟩]
    let es := [.typeCity ['B'], .pick 0]
    Always (SetupState.step T cities) (fun st => ∀ form v, st.begin = .submit form v →
        form = st.form ∧ st.shown = some v ∧ (st.manual = false → st.Names cities v))
      (.new cities (-90) (-180)) es ∧
    (Always (SetupState.step T cities) (fun st => ∀ v, st.shown = some v →
        st.begin = .submit st.form v) (.new cities (-90) (-180)) es ↔
      Along (SetupState.step T cities) (fun st e => e = .back → st.coordRow = none)
        (.new cities (-90) (-180)) es) :=
  submitted_is_shown (by simp) ⟨rfl, rfl, trivial⟩

/-! ## Without a table -/

/-- Where the numbers are shown and something is selected, a number is the selected one after a
run exactly if it was before or the run has set it. -/
theorem SetupState.numbers_exec {es : List SetupEvent} {v : Place}
    (numbers : st.manual = true) (selected : st.selectedLoc = some v)
    (run : Along (SetupState.step T []) (SetupState.Enabled []) st es) :
    let st' := exec (SetupState.step T []) st es
    ∃ w, st'.selectedLoc = some w ∧
      (w.1 = st'.lat ↔ v.1 = st.lat ∨ ∃ value, .setLat value ∈ es) ∧
      (w.2 = st'.lon ↔ v.2 = st.lon ∨ ∃ value, .setLon value ∈ es) := by
  induction es generalizing st v with
  | nil => exact ⟨v, selected, by simp, by simp⟩
  | cons e es ih =>
    obtain ⟨can, run⟩ := run
    cases e with
    | setForm form =>
      have still : (st.step T [] (.setForm form)).manual = true := numbers
      have same : (st.step T [] (.setForm form)).selectedLoc = some v := selected
      simpa [SetupState.step] using ih still same run
    | typeCity text => exact absurd (numbers.symm.trans can) (by decide)
    | pick row => exact absurd (numbers.symm.trans can) (by decide)
    | toManual => exact absurd rfl can.2
    | back => exact absurd rfl can.2
    | setLat value =>
      have still : (st.step T [] (.setLat value)).manual = true := numbers
      have set : (st.step T [] (.setLat value)).selectedLoc = some (value, v.2) := by
        simp [SetupState.step, selected]
      obtain ⟨w, hw, lat, lon⟩ := ih still set run
      exact ⟨w, hw, by simpa [SetupState.step] using lat, by simpa [SetupState.step] using lon⟩
    | setLon value =>
      have still : (st.step T [] (.setLon value)).manual = true := numbers
      have set : (st.step T [] (.setLon value)).selectedLoc = some (v.1, value) := by
        simp [SetupState.step, selected]
      obtain ⟨w, hw, lat, lon⟩ := ih still set run
      exact ⟨w, hw, by simpa [SetupState.step] using lat, by simpa [SetupState.step] using lon⟩

/-- Without cities the numbers are submitted as they are shown exactly if each of them started at
zero or has been changed. -/
theorem without_cities_iff {lat lon : ℚ} {es : List SetupEvent}
    (run : Along (SetupState.step T []) (SetupState.Enabled []) (.new [] lat lon) es) :
    let st := exec (SetupState.step T []) (.new [] lat lon) es
    st.begin = .submit st.form (st.lat, st.lon) ↔
      (lat = 0 ∨ ∃ value, .setLat value ∈ es) ∧ (lon = 0 ∨ ∃ value, .setLon value ∈ es) := by
  intro st
  have start : (SetupState.new [] lat lon).selectedLoc = some (0, 0) := rfl
  obtain ⟨w, selected, onLat, onLon⟩ := SetupState.numbers_exec rfl start run
  calc st.begin = .submit st.form (st.lat, st.lon)
      ↔ w.1 = st.lat ∧ w.2 = st.lon := by
        rw [SetupState.begin_eq_submit, selected]
        simp [Prod.ext_iff]
    _ ↔ _ := and_congr (onLat.trans (or_congr_left eq_comm)) (onLon.trans (or_congr_left eq_comm))

/-- The toolkit starts the numbers at their least values, and only the latitude is changed. -/
theorem without_cities_iff_latitude :
    let T : CityText ℚ := ⟨id, fun _ => none⟩
    let es := [.setLat 50]
    let st := exec (SetupState.step T []) (.new [] (-90) (-180)) es
    st.begin = .submit st.form (st.lat, st.lon) ↔
      ((-90 : ℚ) = 0 ∨ ∃ value, .setLat value ∈ es) ∧
        ((-180 : ℚ) = 0 ∨ ∃ value, SetupEvent.setLon value ∈ es) :=
  without_cities_iff ⟨⟨rfl, by decide⟩, trivial⟩

end Zodia.App
