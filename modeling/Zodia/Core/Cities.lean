import Zodia.Lib.Search

/-!
# City search

The offline table of cities of `core/build.rs` and the prefix search of `core/src/cities.rs`.
The build reads one city a line and sorts the cities by lower-cased name; an unstable sort
leaves the order of cities with one name open, so the table is any sorted permutation. The
search halves the table to the first key that does not lie before the typed text and scans
from there.

Lower-casing and the reading of coordinates are the standard library's. The build writes the table
as source code and escapes nothing but the double quotes of its texts; how the compiler reads a
string literal is a parameter.

## Main results

* `searchCities_eq` — the search yields the first cities, in the order of the table, of all
  whose lower-cased name starts with the lower-cased text; only the limit cuts them short.
-/

namespace Zodia.Core

open Lib

variable {Coord : Type*}

/-- Lower-casing, and what a coordinate's text reads as in the generated table. -/
structure CityText (Coord : Type*) where
  toLowercase : List Char → List Char
  parse : List Char → Option Coord

/-- One entry of the generated table. -/
structure City (Coord : Type*) where
  key : List Char
  name : List Char
  country : List Char
  lat : Coord
  lon : Coord
  deriving DecidableEq

/-- A matched city. -/
structure CityHit (Coord : Type*) where
  name : List Char
  country : List Char
  lat : Coord
  lon : Coord
  deriving DecidableEq

def City.hit (c : City Coord) : CityHit Coord := ⟨c.name, c.country, c.lat, c.lon⟩

/-! ## The generated table -/

/-- The city of one line: its ASCII name, latitude, longitude and country are the fields 2, 4, 5
and 8. A line with fewer fields, no name or unreadable coordinates has none. -/
def cityOfLine (T : CityText Coord) (line : List Char) : Option (City Coord) :=
  let f := splitn '\t' 20 line
  if f.length < 9 then none
  else
    let ascii := f.getD 2 []
    if ascii = [] then none
    else do
      let lat ← T.parse (f.getD 4 [])
      let lon ← T.parse (f.getD 5 [])
      some ⟨T.toLowercase ascii, ascii, f.getD 8 [], lat, lon⟩

/-- The cities of a file, in the order of its lines. -/
def citiesOfFile (T : CityText Coord) (file : List Char) : List (City Coord) :=
  (lines file).filterMap (cityOfLine T)

/-- The text of a string literal as the build writes it. -/
def escapeQuotes (s : List Char) : List Char :=
  s.flatMap fun c => if c = '"' then ['\\', '"'] else [c]

/-- No backslash, which starts an escape, and no carriage return, which a literal cannot hold. -/
def Plain (s : List Char) : Prop := '\\' ∉ s ∧ '\r' ∉ s

instance (s : List Char) : Decidable (Plain s) := inferInstanceAs (Decidable (_ ∧ _))

/-- How the compiler reads the text of a string literal, if it can. -/
structure Literals where
  read : List Char → Option (List Char)
  read_escapeQuotes : ∀ s, Plain s → read (escapeQuotes s) = some s

theorem filter_escapeQuotes (s : List Char) (plain : Plain s) :
    some ((escapeQuotes s).filter fun c => c ≠ '\\') = some s := by
  obtain ⟨backslash, -⟩ := plain
  induction s with
  | nil => rfl
  | cons c s ih => grind [escapeQuotes]

/-- A reader that knows no escape but the one of a quote. -/
def quotesOnly : Literals := ⟨fun s => some (s.filter fun c => c ≠ '\\'), filter_escapeQuotes⟩

/-- The entry that the compiler makes of what the build wrote. -/
def City.compiled (L : Literals) (c : City Coord) : Option (City Coord) :=
  (L.read (escapeQuotes c.key)).bind fun key =>
    (L.read (escapeQuotes c.name)).bind fun name =>
      (L.read (escapeQuotes c.country)).map fun country => { c with key, name, country }

/-- The texts of a city are read back. -/
structure City.Readable (c : City Coord) : Prop where
  key : Plain c.key
  name : Plain c.name
  country : Plain c.country

theorem City.compiled_eq {L : Literals} {c : City Coord} (h : c.Readable) :
    c.compiled L = some c := by
  simp [City.compiled, L.read_escapeQuotes _ h.key, L.read_escapeQuotes _ h.name,
    L.read_escapeQuotes _ h.country]

/-- A table the build may generate from a file: its cities, sorted by key, and what the compiler
reads of them. -/
structure Cities (T : CityText Coord) (L : Literals) (file : List Char) where
  written : List (City Coord)
  perm : written.Perm (citiesOfFile T file)
  sorted : written.Pairwise fun a b => textLe a.key b.key
  rows : List (City Coord)
  compiled : written.mapM (City.compiled L) = some rows

theorem sorted_mergeSort_key (l : List (City Coord)) :
    (l.mergeSort fun a b => textLe a.key b.key).Pairwise fun a b => textLe a.key b.key := by
  have order (a b c : City Coord) : textLe a.key b.key → textLe b.key c.key →
      textLe a.key c.key := textLe_trans
  have total (a b : City Coord) : (textLe a.key b.key || textLe b.key a.key) = true := by
    rw [Bool.or_eq_true]
    exact textLe_total a.key b.key
  exact List.pairwise_mergeSort order total l

section Generated

variable {T : CityText Coord} {L : Literals} {file : List Char}

theorem mapM_compiled {cities : List (City Coord)} (h : ∀ c ∈ cities, c.Readable) :
    cities.mapM (City.compiled L) = some cities := by
  have each : ∀ c ∈ cities, c.compiled L = some c := fun c mem => City.compiled_eq (h c mem)
  induction cities with
  | nil => rfl
  | cons c cities ih =>
    rw [List.mapM_cons, each c List.mem_cons_self,
      ih (fun x mem => h x (List.mem_cons_of_mem c mem))
        (fun x mem => each x (List.mem_cons_of_mem c mem))]
    rfl

theorem mapM_compiled_mergeSort {cities : List (City Coord)} (h : ∀ c ∈ cities, c.Readable) :
    (cities.mergeSort fun a b => textLe a.key b.key).mapM (City.compiled L) =
      some (cities.mergeSort fun a b => textLe a.key b.key) :=
  mapM_compiled fun c mem => h c (List.mem_mergeSort.1 mem)

/-- The table in which cities with one name keep the order of their lines. -/
def generate (readable : ∀ c ∈ citiesOfFile T file, c.Readable) : Cities T L file where
  written := (citiesOfFile T file).mergeSort fun a b => textLe a.key b.key
  perm := List.mergeSort_perm ..
  sorted := sorted_mergeSort_key _
  rows := (citiesOfFile T file).mergeSort fun a b => textLe a.key b.key
  compiled := mapM_compiled_mergeSort readable

/-- If every text is read back, the table is the one that was written. -/
theorem Cities.rows_eq (t : Cities T L file) (readable : ∀ c ∈ citiesOfFile T file, c.Readable) :
    t.rows = t.written := by
  have same := mapM_compiled (L := L) fun c mem => readable c (t.perm.mem_iff.1 mem)
  exact Option.some.inj (t.compiled.symm.trans same)

/-- Every key is the lower-cased name. -/
theorem key_of_cityOfLine {line : List Char} {c : City Coord}
    (h : cityOfLine T line = some c) : c.key = T.toLowercase c.name := by
  simp only [cityOfLine] at h
  split_ifs at h
  obtain ⟨lat, -, h⟩ := Option.bind_eq_some_iff.1 h
  obtain ⟨lon, -, h⟩ := Option.bind_eq_some_iff.1 h
  obtain rfl := Option.some.inj h
  rfl

theorem Cities.key_eq (t : Cities T L file) {c : City Coord} (mem : c ∈ t.written) :
    c.key = T.toLowercase c.name := by
  obtain ⟨line, -, parsed⟩ := List.mem_filterMap.1 (t.perm.mem_iff.1 mem)
  exact key_of_cityOfLine parsed

end Generated

/-! ## The search -/

/-- Up to `limit` cities whose ASCII name starts with `typed`, whatever the case. -/
def searchCities (T : CityText Coord) (cities : List (City Coord)) (typed : List Char)
    (limit : ℕ) : List (CityHit Coord) :=
  if typed = [] then []
  else
    let lower := T.toLowercase typed
    let start := partitionPoint (fun c => !textLe lower c.key) cities
    ((((cities.drop start).takeWhile fun c => lower.isPrefixOf c.key).take limit).map City.hit)

/-- The city's lower-cased name starts with the lower-cased text. -/
def City.Matches (T : CityText Coord) (typed : List Char) (c : City Coord) : Prop :=
  T.toLowercase typed <+: T.toLowercase c.name

instance (T : CityText Coord) (typed : List Char) (c : City Coord) :
    Decidable (c.Matches T typed) := inferInstanceAs (Decidable (_ <+: _))

variable {T : CityText Coord} {L : Literals} {file : List Char}

theorem Cities.takeWhile_eq (t : Cities T L file) (typed : List Char) :
    ((t.written.drop
      (partitionPoint (fun c => !textLe (T.toLowercase typed) c.key) t.written)).takeWhile
        fun c => (T.toLowercase typed).isPrefixOf c.key) =
      t.written.filter fun c => c.Matches T typed := by
  refine (takeWhile_isPrefix_eq_filter t.sorted (T.toLowercase typed)).trans ?_
  refine List.filter_congr fun c mem => ?_
  rw [Bool.eq_iff_iff, Function.comp_apply, List.isPrefixOf_iff_prefix, decide_eq_true_iff,
    t.key_eq mem, City.Matches]

/-- If no text has a backslash, the search yields the first of the matching cities, in the order of
the table; how many it yields depends on the file alone. -/
theorem searchCities_eq (t : Cities T L file)
    (readable : ∀ c ∈ citiesOfFile T file, c.Readable) {typed : List Char}
    (some_typed : typed ≠ []) (limit : ℕ) :
    searchCities T t.rows typed limit =
        ((t.rows.filter fun c => c.Matches T typed).take limit).map City.hit ∧
      (searchCities T t.rows typed limit).length =
        min limit ((citiesOfFile T file).countP fun c => c.Matches T typed) := by
  rw [t.rows_eq readable]
  have found : searchCities T t.written typed limit =
      ((t.written.filter fun c => c.Matches T typed).take limit).map City.hit := by
    rw [searchCities, if_neg some_typed, ← t.takeWhile_eq]
  refine ⟨found, ?_⟩
  rw [found, List.length_map, List.length_take, ← List.countP_eq_length_filter,
    t.perm.countP_eq]

/-- Two lines of a file, and whole degrees for coordinates. -/
theorem searchCities_eq_lines :
    let T : CityText ℕ := ⟨fun l => l.map Char.toLower, fun l => some (Nat.ofDigitChars 10 l 0)⟩
    let file := "2\t\tParis\t\t49\t2\tP\tPPLC\tFR\n1\t\tBonn\t\t51\t7\tP\tPPL\tDE\n".toList
    ∃ t : Cities T quotesOnly file,
      searchCities T t.rows ['p'] 8 =
          ((t.rows.filter fun c => c.Matches T ['p']).take 8).map City.hit ∧
        (searchCities T t.rows ['p'] 8).length =
          min 8 ((citiesOfFile T file).countP fun c => c.Matches T ['p']) := by
  intro T file
  have readable : ∀ c ∈ citiesOfFile T file, c.Readable := by
    have plain : ∀ c ∈ citiesOfFile T file, Plain c.key ∧ Plain c.name ∧ Plain c.country := by
      decide +kernel
    exact fun c mem => ⟨(plain c mem).1, (plain c mem).2.1, (plain c mem).2.2⟩
  exact ⟨generate readable, searchCities_eq _ readable (by decide) 8⟩

end Zodia.Core
