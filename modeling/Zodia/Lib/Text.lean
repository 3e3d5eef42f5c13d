import Mathlib.Data.List.DropRight
import Mathlib.Data.List.Induction
import Zodia.Lib.Primitives

/-!
# Text of lines and fields

Splitting a text into lines and a line at its first separator, writing bytes in
hexadecimal, and collecting key–value pairs into a map where later entries win.

## Main results

* `lines_append` — a piece without a newline is the first line.
* `splitOnce_append` — a piece without the separator is the first field.
* `splitAtFirst_append_left`, `splitAtFirst_append_right` — pieces in which no substring can
  start or end are passed over.
* `textLe_antisymm`, `textLe_total` — texts are in a linear order.
* `hexDecode_hexEncode` — what is written in hexadecimal can be read back.
* `collect_of_mem` — with distinct keys every entry is found.
-/

namespace Zodia.Lib

/-! ## Lines -/

/-- Drop one carriage return from the end of a line. -/
def stripCr (l : List Char) : List Char := if l.getLast? = some '\r' then l.dropLast else l

/-- The lines of `s`, the first of which starts with `cur`. -/
def linesFrom (cur : List Char) : List Char → List (List Char)
  | [] => if cur = [] then [] else [cur]
  | c :: s => if c = '\n' then stripCr cur :: linesFrom [] s else linesFrom (cur ++ [c]) s

/-- The lines of a text: each ends at a newline, or at a carriage return and a newline. -/
def lines (s : List Char) : List (List Char) := linesFrom [] s

theorem linesFrom_append {a : List Char} (h : '\n' ∉ a) (cur s : List Char) :
    linesFrom cur (a ++ '\n' :: s) = stripCr (cur ++ a) :: lines s := by
  induction a generalizing cur with
  | nil => simp [linesFrom, lines]
  | cons c a ih =>
    have hc : c ≠ '\n' := by grind
    rw [List.cons_append, linesFrom, if_neg hc, ih (by grind)]
    simp

theorem lines_append {a : List Char} (h : '\n' ∉ a) (s : List Char) :
    lines (a ++ '\n' :: s) = stripCr a :: lines s := linesFrom_append h [] s

/-- The lines of a text up to the end of one of its lines are not changed by what follows. -/
theorem linesFrom_append_newline (cur a s : List Char) :
    linesFrom cur (a ++ '\n' :: s) = linesFrom cur (a ++ ['\n']) ++ lines s := by
  induction a generalizing cur with
  | nil => simp [linesFrom, lines]
  | cons c a ih =>
    simp only [List.cons_append, linesFrom]
    split_ifs <;> simp [ih]

/-- Terminated pieces are read one after the other. -/
theorem lines_flatMap_pieces (pieces : List (List Char)) :
    lines (pieces.flatMap fun a => a ++ ['\n']) = pieces.flatMap fun a => lines (a ++ ['\n']) := by
  induction pieces with
  | nil => rfl
  | cons a pieces ih =>
    rw [List.flatMap_cons, List.flatMap_cons, ← ih, List.append_assoc]
    exact linesFrom_append_newline [] a _

/-- Terminated pieces without newlines are the lines of their concatenation. -/
theorem lines_flatMap {pieces : List (List Char)} (h : ∀ a ∈ pieces, '\n' ∉ a) :
    lines (pieces.flatMap fun a => a ++ ['\n']) = pieces.map stripCr := by
  have single : ∀ a ∈ pieces, lines (a ++ ['\n']) = [stripCr a] :=
    fun a ha => lines_append (h a ha) []
  rw [lines_flatMap_pieces, List.flatMap_congr single, List.map_eq_flatMap]

theorem stripCr_subset (l : List Char) : stripCr l ⊆ l := by
  unfold stripCr
  split
  · exact List.dropLast_subset l
  · exact List.Subset.refl l

theorem newline_not_mem_linesFrom {cur s l : List Char} (hcur : '\n' ∉ cur)
    (hl : l ∈ linesFrom cur s) : '\n' ∉ l := by
  induction s generalizing cur with
  | nil => grind [linesFrom]
  | cons c s ih =>
    by_cases hc : c = '\n'
    · rw [linesFrom, if_pos hc] at hl
      rcases List.mem_cons.1 hl with rfl | rest
      · exact fun hmem => hcur (stripCr_subset cur hmem)
      · exact ih (by simp) rest
    · rw [linesFrom, if_neg hc] at hl
      exact ih (by grind) hl

theorem newline_not_mem_lines {s l : List Char} (h : l ∈ lines s) : '\n' ∉ l :=
  newline_not_mem_linesFrom (by simp) h

theorem stripCr_append (a : List Char) {c : Char} (hc : c ≠ '\r') (b : List Char) :
    stripCr (a ++ c :: b) = a ++ c :: stripCr b := by
  cases b with
  | nil => simp [stripCr, hc]
  | cons d b =>
    unfold stripCr
    simp only [List.getLast?_append, List.getLast?_cons]
    split <;> simp_all [List.dropLast_append_of_ne_nil]

theorem stripCr_eq_self {l : List Char} : stripCr l = l ↔ l.getLast? ≠ some '\r' := by
  unfold stripCr
  split
  · next cr =>
    have : l ≠ [] := by rintro rfl; simp at cr
    have shorter : l.dropLast.length ≠ l.length := by
      have := List.length_pos_iff.2 this
      simp
      omega
    grind
  · simp_all

/-! ## White space -/

/-- The characters with Unicode property `White_Space`. -/
def whiteSpace (c : Char) : Bool :=
  let n := c.toNat
  (9 ≤ n ∧ n ≤ 13) ∨ n = 0x20 ∨ n = 0x85 ∨ n = 0xA0 ∨ n = 0x1680 ∨ (0x2000 ≤ n ∧ n ≤ 0x200A) ∨
    n = 0x2028 ∨ n = 0x2029 ∨ n = 0x202F ∨ n = 0x205F ∨ n = 0x3000

/-- Drop white space at both ends. -/
def trim (l : List Char) : List Char := (l.dropWhile whiteSpace).rdropWhile whiteSpace

theorem trim_eq_self {l : List Char} (h : ∀ c ∈ l, whiteSpace c = false) : trim l = l := by
  have front : l.dropWhile whiteSpace = l := by
    cases l with
    | nil => rfl
    | cons c l => simp [h c (by simp)]
  rw [trim, front, List.rdropWhile_eq_self_iff]
  intro ne
  simp [h _ (List.getLast_mem ne)]

/-- Trimmed text starts with no white space. -/
theorem dropWhile_trim (l : List Char) : (trim l).dropWhile whiteSpace = trim l := by
  obtain ⟨rest, split⟩ := List.rdropWhile_prefix whiteSpace (l.dropWhile whiteSpace)
  have first := List.head?_dropWhile_not whiteSpace l
  rw [← split] at first
  cases h : trim l with
  | nil => rfl
  | cons c t =>
    have start : (l.dropWhile whiteSpace).rdropWhile whiteSpace = c :: t := h
    rw [start] at first
    rw [List.dropWhile_cons, if_neg (by simpa using first)]

theorem trim_trim (l : List Char) : trim (trim l) = trim l := by
  rw [trim, dropWhile_trim]
  exact List.rdropWhile_idempotent whiteSpace _

/-- What is left of the beginning of a trimmed text is a beginning of it. -/
theorem trim_isPrefix {l m : List Char} (h : l <+: m) (trimmed : trim m = m) : trim l <+: m := by
  have front := dropWhile_trim m
  rw [trimmed] at front
  have same : l.dropWhile whiteSpace = l := by
    obtain ⟨rest, rfl⟩ := h
    cases l with
    | nil => rfl
    | cons c l =>
      rw [List.cons_append, List.dropWhile_eq_self_iff] at front
      exact List.dropWhile_eq_self_iff.2 fun _ => front (Nat.succ_pos _)
  rw [trim, same]
  exact (List.rdropWhile_prefix whiteSpace l).trans h

/-- Trimmed text ends with no white space. -/
theorem getLast?_trim {l : List Char} {c : Char} (h : (trim l).getLast? = some c) :
    whiteSpace c = false := by
  have ne : trim l ≠ [] := by
    rintro empty
    simp [empty] at h
  rw [List.getLast?_eq_getLast_of_ne_nil ne] at h
  rw [← Option.some.inj h]
  exact eq_false_of_ne_true (List.rdropWhile_last_not whiteSpace (l.dropWhile whiteSpace) ne)

/-! ## Fields -/

/-- The part of `l` before the first `c`, and the part after it. -/
def splitOnce (c : Char) : List Char → Option (List Char × List Char)
  | [] => none
  | x :: xs =>
    if x = c then some ([], xs)
    else (splitOnce c xs).map fun parts => (x :: parts.1, parts.2)

theorem splitOnce_append {c : Char} {a : List Char} (h : c ∉ a) (b : List Char) :
    splitOnce c (a ++ c :: b) = some (a, b) := by
  induction a with
  | nil => simp [splitOnce]
  | cons x a ih =>
    have hx : x ≠ c := by grind
    simp [splitOnce, hx, ih (by grind)]

/-- The cut is at the first place of the character. -/
theorem splitOnce_parts {c : Char} {l a b : List Char} (h : splitOnce c l = some (a, b)) :
    l = a ++ c :: b ∧ c ∉ a := by
  induction l generalizing a with
  | nil => cases h
  | cons x l ih =>
    rw [splitOnce] at h
    split_ifs at h with hx
    · grind
    · obtain ⟨⟨a', b'⟩, rest, parts⟩ := Option.map_eq_some_iff.1 h
      grind

theorem splitOnce_eq_some {c : Char} {l a b : List Char} (h : splitOnce c l = some (a, b)) :
    l = a ++ c :: b := (splitOnce_parts h).1

theorem not_mem_of_splitOnce {c : Char} {l a b : List Char} (h : splitOnce c l = some (a, b)) :
    c ∉ a := (splitOnce_parts h).2

theorem splitOnce_eq_none {c : Char} {l : List Char} : splitOnce c l = none ↔ c ∉ l := by
  induction l with
  | nil => simp [splitOnce]
  | cons x l ih =>
    rw [splitOnce]
    split_ifs with hx
    · simp [hx]
    · simp [ih, Ne.symm hx]

/-- The parts of `l` between the separators, the last of at most `n` parts with all that is left
(`str::splitn`). -/
def splitn (c : Char) : ℕ → List Char → List (List Char)
  | 0, _ => []
  | 1, l => [l]
  | n + 2, l =>
    match splitOnce c l with
    | none => [l]
    | some (a, b) => a :: splitn c (n + 1) b

/-! ## Substrings -/

/-- The parts of `l` before and after the first `needle` in it. -/
def splitAtFirst (needle : List Char) : List Char → Option (List Char × List Char)
  | [] => if needle = [] then some ([], []) else none
  | x :: xs =>
    if needle <+: x :: xs then some ([], (x :: xs).drop needle.length)
    else (splitAtFirst needle xs).map fun parts => (x :: parts.1, parts.2)

theorem splitAtFirst_eq_some {needle l a b : List Char}
    (h : splitAtFirst needle l = some (a, b)) : l = a ++ (needle ++ b) := by
  induction l generalizing a with
  | nil =>
    rw [splitAtFirst] at h
    split_ifs at h with empty
    grind
  | cons x l ih =>
    rw [splitAtFirst] at h
    split_ifs at h with here
    · obtain ⟨tail, same⟩ := here
      grind
    · obtain ⟨⟨a', b'⟩, later, parts⟩ := Option.map_eq_some_iff.1 h
      grind

theorem splitAtFirst_eq_none_of_not_mem {c : Char} {needle l : List Char} (mem : c ∈ needle)
    (h : c ∉ l) : splitAtFirst needle l = none := by
  rw [Option.eq_none_iff_forall_ne_some]
  rintro ⟨a, b⟩ found
  rw [splitAtFirst_eq_some found] at h
  simp [mem] at h

/-- A piece without the first character of the needle is passed over. -/
theorem splitAtFirst_append_left {c : Char} {a : List Char} (h : c ∉ a) (needle l : List Char) :
    splitAtFirst (c :: needle) (a ++ l) =
      (splitAtFirst (c :: needle) l).map fun parts => (a ++ parts.1, parts.2) := by
  induction a with
  | nil => simp
  | cons x a ih =>
    have other : ¬ c :: needle <+: x :: (a ++ l) := by
      rw [List.cons_prefix_cons]
      grind
    rw [List.cons_append, splitAtFirst, if_neg other, ih (by grind), Option.map_map]
    rfl

theorem prefix_append_iff_of_not_mem {c : Char} {needle l b : List Char} (h : c ∉ b) :
    needle ++ [c] <+: l ++ b ↔ needle ++ [c] <+: l := by
  refine ⟨fun pre => ?_, fun pre => pre.trans (List.prefix_append l b)⟩
  rcases List.prefix_or_prefix_of_prefix pre (List.prefix_append l b) with inside | beyond
  · exact inside
  · obtain ⟨tail, same⟩ := beyond
    rcases List.eq_nil_or_concat tail with rfl | ⟨tail, last, rfl⟩
    · rw [List.append_nil] at same
      exact same ▸ List.prefix_rfl
    · rw [List.concat_eq_append, ← List.append_assoc] at same
      obtain ⟨same, -⟩ := List.append_inj' same rfl
      rw [← same, List.append_assoc, List.prefix_append_right_inj] at pre
      exact absurd (pre.subset (by simp)) h

/-- A piece without the last character of the needle is left over. -/
theorem splitAtFirst_append_right {c : Char} {b : List Char} (h : c ∉ b) (needle l : List Char) :
    splitAtFirst (needle ++ [c]) (l ++ b) =
      (splitAtFirst (needle ++ [c]) l).map fun parts => (parts.1, parts.2 ++ b) := by
  induction l with
  | nil =>
    rw [List.nil_append, splitAtFirst_eq_none_of_not_mem (by simp) h]
    simp [splitAtFirst]
  | cons x l ih =>
    have same : needle ++ [c] <+: x :: (l ++ b) ↔ needle ++ [c] <+: x :: l :=
      prefix_append_iff_of_not_mem (l := x :: l) h
    rw [List.cons_append, splitAtFirst, splitAtFirst]
    by_cases here : needle ++ [c] <+: x :: l
    · rw [if_pos (same.2 here), if_pos here, Option.map_some, ← List.cons_append,
        List.drop_append_of_le_length here.length_le]
    · rw [if_neg (mt same.1 here), if_neg here, ih, Option.map_map, Option.map_map]
      rfl

/-! ## Terminated pieces -/

/-- The lines of a terminated piece after its first. -/
def laterLines (l : List Char) : List (List Char) :=
  match splitOnce '\n' l with
  | none => []
  | some (_, rest) => lines (rest ++ ['\n'])

/-- The first line of a terminated piece. -/
def firstLine (l : List Char) : List Char :=
  match splitOnce '\n' l with
  | none => stripCr l
  | some (first, _) => stripCr first

theorem lines_terminated {a : List Char} (ha : '\n' ∉ a) {c : Char} (hc : c ≠ '\r')
    (newline : c ≠ '\n') (l : List Char) :
    lines (a ++ c :: l ++ ['\n']) = (a ++ c :: firstLine l) :: laterLines l := by
  unfold firstLine laterLines
  cases h : splitOnce '\n' l with
  | none =>
    have oneLine : '\n' ∉ a ++ c :: l := by
      have := splitOnce_eq_none.1 h
      simp [ha, newline.symm, this]
    simp only [lines_append oneLine, stripCr_append a hc]
    rfl
  | some parts =>
    obtain ⟨first, rest⟩ := parts
    have oneLine : '\n' ∉ a ++ c :: first := by
      have := not_mem_of_splitOnce h
      simp [ha, newline.symm, this]
    have whole : a ++ c :: l ++ ['\n'] = (a ++ c :: first) ++ '\n' :: (rest ++ ['\n']) := by
      rw [splitOnce_eq_some h]
      simp
    simp only [whole, lines_append oneLine, stripCr_append a hc]

/-! ## Hexadecimal -/

def hexValue (c : Char) : Option ℕ :=
  if '0' ≤ c ∧ c ≤ '9' then some (c.toNat - '0'.toNat)
  else if 'a' ≤ c ∧ c ≤ 'f' then some (c.toNat - 'a'.toNat + 10)
  else if 'A' ≤ c ∧ c ≤ 'F' then some (c.toNat - 'A'.toNat + 10)
  else none

/-- Two lower-case digits for each byte. -/
def hexEncode (bytes : Bytes) : List Char :=
  bytes.flatMap fun b => [Nat.digitChar (b.toNat / 16), Nat.digitChar (b.toNat % 16)]

/-- Read pairs of digits of either case. -/
def hexDecode : List Char → Option Bytes
  | [] => some []
  | [_] => none
  | hi :: lo :: rest => do
    let h ← hexValue hi
    let l ← hexValue lo
    let bytes ← hexDecode rest
    return UInt8.ofNat (16 * h + l) :: bytes

theorem hexValue_digitChar {n : ℕ} (h : n < 16) : hexValue (Nat.digitChar n) = some n := by
  have all : ∀ m : Fin 16, hexValue (Nat.digitChar m) = some m.val := by decide
  exact all ⟨n, h⟩

theorem whiteSpace_digitChar {n : ℕ} (h : n < 16) : whiteSpace (Nat.digitChar n) = false := by
  have all : ∀ m : Fin 16, whiteSpace (Nat.digitChar m) = false := by decide
  exact all ⟨n, h⟩

theorem hexDecode_hexEncode (bytes : Bytes) : hexDecode (hexEncode bytes) = some bytes := by
  induction bytes with
  | nil => rfl
  | cons b bytes ih =>
    have hb : b.toNat < 256 := b.toNat_lt
    have hi := hexValue_digitChar (show b.toNat / 16 < 16 by omega)
    have lo := hexValue_digitChar (show b.toNat % 16 < 16 by omega)
    have whole : UInt8.ofNat (16 * (b.toNat / 16) + b.toNat % 16) = b := by
      rw [show 16 * (b.toNat / 16) + b.toNat % 16 = b.toNat by omega, UInt8.ofNat_toNat]
    change hexDecode (_ :: _ :: hexEncode bytes) = _
    simp only [hexDecode, hi, lo, ih, whole, Option.bind_eq_bind, Option.bind_some,
      Option.pure_def]

/-- Hexadecimal text has no white space. -/
theorem whiteSpace_hexEncode {bytes : Bytes} {c : Char} (h : c ∈ hexEncode bytes) :
    whiteSpace c = false := by
  obtain ⟨b, -, digit⟩ := List.mem_flatMap.1 h
  have hb : b.toNat < 256 := b.toNat_lt
  have hi := whiteSpace_digitChar (show b.toNat / 16 < 16 by omega)
  have lo := whiteSpace_digitChar (show b.toNat % 16 < 16 by omega)
  simp only [List.mem_cons, List.not_mem_nil, or_false] at digit
  rcases digit with rfl | rfl
  · exact hi
  · exact lo

theorem not_mem_hexEncode (bytes : Bytes) :
    '\t' ∉ hexEncode bytes ∧ '\n' ∉ hexEncode bytes :=
  ⟨fun h => absurd (whiteSpace_hexEncode h) (by decide),
    fun h => absurd (whiteSpace_hexEncode h) (by decide)⟩

theorem stripCr_hexEncode (bytes : Bytes) : stripCr (hexEncode bytes) = hexEncode bytes := by
  apply stripCr_eq_self.2
  intro last
  exact absurd (whiteSpace_hexEncode (List.mem_of_getLast? last)) (by decide)

/-! ### Upper case -/

/-- Two upper-case digits for each byte. -/
def hexEncodeUpper (bytes : Bytes) : List Char :=
  (hexEncode bytes).map Char.toUpper

theorem hexValue_toUpper {n : ℕ} (h : n < 16) :
    hexValue (Nat.digitChar n).toUpper = some n := by
  have all : ∀ m : Fin 16, hexValue (Nat.digitChar m).toUpper = some m.val := by decide
  exact all ⟨n, h⟩

theorem whiteSpace_toUpper {n : ℕ} (h : n < 16) :
    whiteSpace (Nat.digitChar n).toUpper = false := by
  have all : ∀ m : Fin 16, whiteSpace (Nat.digitChar m).toUpper = false := by decide
  exact all ⟨n, h⟩

theorem hexEncodeUpper_injective : Function.Injective hexEncodeUpper := by
  intro bytes
  induction bytes with
  | nil =>
    intro other h
    cases other with
    | nil => rfl
    | cons b other => simp [hexEncodeUpper, hexEncode] at h
  | cons b bytes ih =>
    intro other h
    cases other with
    | nil => simp [hexEncodeUpper, hexEncode] at h
    | cons b' other =>
      have hb : b.toNat < 256 := b.toNat_lt
      have hb' : b'.toNat < 256 := b'.toNat_lt
      simp only [hexEncodeUpper, hexEncode, List.flatMap_cons, List.map_cons,
        List.cons_append, List.nil_append, List.cons.injEq] at h
      obtain ⟨hi, lo, rest⟩ := h
      have high := congrArg hexValue hi
      have low := congrArg hexValue lo
      rw [hexValue_toUpper (by omega), hexValue_toUpper (by omega)] at high low
      have same : b = b' := by
        apply UInt8.toNat_inj.1
        have := Option.some.inj high
        have := Option.some.inj low
        omega
      rw [same, ih rest]

theorem whiteSpace_hexEncodeUpper {bytes : Bytes} {c : Char} (h : c ∈ hexEncodeUpper bytes) :
    whiteSpace c = false := by
  obtain ⟨d, hd, rfl⟩ := List.mem_map.1 h
  obtain ⟨b, -, digit⟩ := List.mem_flatMap.1 hd
  have hb : b.toNat < 256 := b.toNat_lt
  simp only [List.mem_cons, List.not_mem_nil, or_false] at digit
  rcases digit with rfl | rfl
  · exact whiteSpace_toUpper (by omega)
  · exact whiteSpace_toUpper (by omega)

/-! ## Maps -/

/-- The map of a list of entries: a later entry replaces an earlier one. -/
def collect {K V : Type*} [DecidableEq K] (entries : List (K × V)) : K → Option V :=
  entries.foldl (fun m e => Function.update m e.1 (some e.2)) fun _ => none

section Collect

variable {K V : Type*} [DecidableEq K]

theorem collect_append_singleton (entries : List (K × V)) (e : K × V) :
    collect (entries ++ [e]) = Function.update (collect entries) e.1 (some e.2) := by
  simp [collect]

/-- Only the entries of a key matter for it. -/
theorem collect_eq_of_filter {entries entries' : List (K × V)} {k : K}
    (h : entries.filter (fun e => e.1 = k) = entries'.filter fun e => e.1 = k) :
    collect entries k = collect entries' k := by
  have only : ∀ entries : List (K × V),
      collect entries k = collect (entries.filter fun e => e.1 = k) k := by
    intro entries
    induction entries using List.reverseRecOn with
    | nil => rfl
    | append_singleton entries e ih =>
      rw [collect_append_singleton, List.filter_append]
      by_cases hk : e.1 = k
      · subst hk
        have last : [e].filter (fun e' => e'.1 = e.1) = [e] := by simp
        rw [last, collect_append_singleton, Function.update_self, Function.update_self]
      · have last : [e].filter (fun e' => e'.1 = k) = [] := by simp [hk]
        rw [last, List.append_nil, Function.update_of_ne (Ne.symm hk), ih]
  rw [only entries, h, ← only entries']

theorem mem_of_collect {entries : List (K × V)} {k : K} {v : V}
    (h : collect entries k = some v) : (k, v) ∈ entries := by
  induction entries using List.reverseRecOn with
  | nil => cases h
  | append_singleton entries e ih =>
    rw [collect_append_singleton] at h
    by_cases hk : k = e.1
    · subst hk
      obtain rfl : e.2 = v := by simpa using h
      simp
    · rw [Function.update_of_ne hk] at h
      exact List.mem_append_left _ (ih h)

theorem collect_of_mem {entries : List (K × V)} (distinct : (entries.map Prod.fst).Nodup) {k : K}
    {v : V} (h : (k, v) ∈ entries) : collect entries k = some v := by
  induction entries using List.reverseRecOn with
  | nil => cases h
  | append_singleton entries e ih =>
    rw [collect_append_singleton]
    simp only [List.map_append, List.map_cons, List.map_nil, List.nodup_append] at distinct
    rcases List.mem_append.1 h with old | new
    · have hk : k ≠ e.1 := distinct.2.2 k (List.mem_map.2 ⟨_, old, rfl⟩) e.1 (by simp)
      rw [Function.update_of_ne hk, ih distinct.1 old]
    · obtain rfl := List.mem_singleton.1 new
      simp

theorem collect_isSome {entries : List (K × V)} {e : K × V} (h : e ∈ entries) :
    (collect entries e.1).isSome := by
  induction entries using List.reverseRecOn with
  | nil => cases h
  | append_singleton entries last ih =>
    rw [collect_append_singleton]
    by_cases hk : e.1 = last.1
    · simp [hk]
    · rw [Function.update_of_ne hk]
      rcases List.mem_append.1 h with old | new
      · exact ih old
      · obtain rfl := List.mem_singleton.1 new
        exact absurd rfl hk

end Collect

/-! ## Order -/

/-- The order of texts, by the first character in which they differ. -/
def textLe : List Char → List Char → Bool
  | [], _ => true
  | _ :: _, [] => false
  | c :: s, d :: t => c.toNat < d.toNat || (c.toNat == d.toNat && textLe s t)

theorem textLe_total (s t : List Char) : textLe s t ∨ textLe t s := by
  induction s generalizing t with
  | nil => exact .inl rfl
  | cons c s ih =>
    cases t with
    | nil => exact .inr rfl
    | cons d t =>
      simp only [textLe, Bool.or_eq_true, Bool.and_eq_true, decide_eq_true_eq, beq_iff_eq]
      rcases lt_trichotomy c.toNat d.toNat with lt | eq | lt
      · exact .inl (.inl lt)
      · exact (ih t).imp (fun le => .inr ⟨eq, le⟩) fun le => .inr ⟨eq.symm, le⟩
      · exact .inr (.inl lt)

theorem textLe_antisymm {s t : List Char} (le : textLe s t) (ge : textLe t s) : s = t := by
  induction s generalizing t with
  | nil =>
    cases t with
    | nil => rfl
    | cons d t => cases ge
  | cons c s ih =>
    cases t with
    | nil => cases le
    | cons d t =>
      simp only [textLe, Bool.or_eq_true, Bool.and_eq_true, decide_eq_true_eq, beq_iff_eq] at le ge
      have same : c.toNat = d.toNat := by omega
      have rest : s = t := ih (le.resolve_left same.not_lt).2 (ge.resolve_left same.symm.not_lt).2
      rw [Char.toNat_inj.1 same, rest]

end Zodia.Lib
