import Zodia.Lib.Symbolic
import Zodia.Lib.Traverse

/-!
# Concise binary object representation

Data items and their encoding as bytes: a head with the major type and an argument in the
shortest form, then the content. Floats and items of indefinite length are left out, and so are
the simple values other than the Booleans and null.

On top of items, records are maps from field names and a variant of an enumeration is a map with
one entry, its name. Reading a record skips the fields it does not know.

## Main definitions

* `Value`, `Value.write`, `Value.read` — items, and items as bytes.
* `FieldCodec` — a type whose values are written as items and can be read back.
* `Value.record`, `Value.variant`, `getField` — records and variants.

## Main results

* `Value.read_write` — an item that is not nested too deeply is read back.
* `Value.length_write` — how many bytes an item takes.
-/

namespace Zodia.Lib

/-- A data item. -/
inductive Value where
  | uint (n : ℕ)
  | nint (n : ℕ)
  | bytes (b : Bytes)
  | text (s : String)
  | array (items : List Value)
  | map (entries : List (Value × Value))
  | tag (n : ℕ) (v : Value)
  | bool (b : Bool)
  | null

namespace Value

/-! ## Heads -/

/-- The last `k` bytes of a number, the most significant one first. -/
def bigEndian : ℕ → ℕ → Bytes
  | 0, _ => []
  | k + 1, n => UInt8.ofNat (n / 256 ^ k) :: bigEndian k (n % 256 ^ k)

def readBigEndian : ℕ → Bytes → Option (ℕ × Bytes)
  | 0, bs => some (0, bs)
  | _ + 1, [] => none
  | k + 1, b :: bs => (readBigEndian k bs).map fun r => (b.toNat * 256 ^ k + r.1, r.2)

/-- A number as that many ones and a zero. -/
def unary (n : ℕ) : Bytes := List.replicate n 1 ++ [0]

def readUnary : Bytes → Option (ℕ × Bytes)
  | [] => none
  | b :: bs => if b = 0 then some (0, bs) else (readUnary bs).map fun r => (r.1 + 1, r.2)

/-- The head of an item. No length reaches `2 ^ 64`; the last line, under a reserved code, is
there to give every number a head of its own. -/
def head (major n : ℕ) : Bytes :=
  if n < 24 then [UInt8.ofNat (32 * major + n)]
  else if n < 256 ^ 1 then UInt8.ofNat (32 * major + 24) :: bigEndian 1 n
  else if n < 256 ^ 2 then UInt8.ofNat (32 * major + 25) :: bigEndian 2 n
  else if n < 256 ^ 4 then UInt8.ofNat (32 * major + 26) :: bigEndian 4 n
  else if n < 256 ^ 8 then UInt8.ofNat (32 * major + 27) :: bigEndian 8 n
  else UInt8.ofNat (32 * major + 28) :: unary n

/-- The major type and the argument of a head. -/
def readHead : Bytes → Option (ℕ × ℕ × Bytes)
  | [] => none
  | b :: bs =>
    let major := b.toNat / 32
    match b.toNat % 32 with
    | 24 => (readBigEndian 1 bs).map fun r => (major, r)
    | 25 => (readBigEndian 2 bs).map fun r => (major, r)
    | 26 => (readBigEndian 4 bs).map fun r => (major, r)
    | 27 => (readBigEndian 8 bs).map fun r => (major, r)
    | 28 => (readUnary bs).map fun r => (major, r)
    | info => if info < 24 then some (major, info, bs) else none

theorem readBigEndian_bigEndian (k : ℕ) {n : ℕ} (h : n < 256 ^ k) (rest : Bytes) :
    readBigEndian k (bigEndian k n ++ rest) = some (n, rest) := by
  induction k generalizing n with
  | zero =>
    obtain rfl : n = 0 := by simpa using h
    rfl
  | succ k ih =>
    have positive : 0 < 256 ^ k := Nat.pow_pos (by decide)
    have digit : n / 256 ^ k < 256 := Nat.div_lt_of_lt_mul (by rwa [← pow_succ])
    have byte : (UInt8.ofNat (n / 256 ^ k)).toNat = n / 256 ^ k := by
      rw [UInt8.toNat_ofNat']
      exact Nat.mod_eq_of_lt digit
    rw [bigEndian, List.cons_append, readBigEndian, ih (Nat.mod_lt n positive), Option.map_some,
      byte, Nat.div_add_mod']

theorem readUnary_unary (n : ℕ) (rest : Bytes) : readUnary (unary n ++ rest) = some (n, rest) := by
  induction n with
  | zero => rfl
  | succ n ih =>
    have step : unary (n + 1) ++ rest = 1 :: (unary n ++ rest) := by
      simp [unary, List.replicate_succ]
    rw [step, readUnary, ih]
    rfl

/-- A head is read back. -/
theorem readHead_head {major : ℕ} (hm : major < 8) (n : ℕ) (rest : Bytes) :
    readHead (head major n ++ rest) = some (major, n, rest) := by
  have byte : ∀ info, info < 32 →
      (UInt8.ofNat (32 * major + info)).toNat / 32 = major ∧
        (UInt8.ofNat (32 * major + info)).toNat % 32 = info := by
    intro info hi
    rw [UInt8.toNat_ofNat', Nat.mod_eq_of_lt (by omega)]
    omega
  unfold head
  split_ifs with h₀ h₁ h₂ h₃ h₄
  · obtain ⟨hmajor, hinfo⟩ := byte n (by omega)
    simp only [List.cons_append, List.nil_append, readHead, hmajor, hinfo]
    split <;> first | omega | simp [h₀]
  · rw [List.cons_append, readHead, (byte 24 (by decide)).1, (byte 24 (by decide)).2]
    simp only [readBigEndian_bigEndian 1 h₁, Option.map_some]
  · rw [List.cons_append, readHead, (byte 25 (by decide)).1, (byte 25 (by decide)).2]
    simp only [readBigEndian_bigEndian 2 h₂, Option.map_some]
  · rw [List.cons_append, readHead, (byte 26 (by decide)).1, (byte 26 (by decide)).2]
    simp only [readBigEndian_bigEndian 4 h₃, Option.map_some]
  · rw [List.cons_append, readHead, (byte 27 (by decide)).1, (byte 27 (by decide)).2]
    simp only [readBigEndian_bigEndian 8 h₄, Option.map_some]
  · rw [List.cons_append, readHead, (byte 28 (by decide)).1, (byte 28 (by decide)).2]
    simp only [readUnary_unary, Option.map_some]

/-! ## Items -/

mutual

/-- The bytes of an item. -/
def write : Value → Bytes
  | uint n => head 0 n
  | nint n => head 1 n
  | bytes b => head 2 b.length ++ b
  | text s => head 3 (utf8 s).length ++ utf8 s
  | array items => head 4 items.length ++ writeItems items
  | map entries => head 5 entries.length ++ writeEntries entries
  | tag n v => head 6 n ++ v.write
  | bool b => head 7 (if b then 21 else 20)
  | null => head 7 22

def writeItems : List Value → Bytes
  | [] => []
  | v :: items => v.write ++ writeItems items

def writeEntries : List (Value × Value) → Bytes
  | [] => []
  | (k, v) :: entries => k.write ++ v.write ++ writeEntries entries

end

mutual

/-- How deeply an item is nested. -/
def depth : Value → ℕ
  | array items => 1 + depthItems items
  | map entries => 1 + depthEntries entries
  | tag _ v => 1 + v.depth
  | _ => 1

def depthItems : List Value → ℕ
  | [] => 0
  | v :: items => max v.depth (depthItems items)

def depthEntries : List (Value × Value) → ℕ
  | [] => 0
  | (k, v) :: entries => max (max k.depth v.depth) (depthEntries entries)

end

/-- Read `n` pieces in a row. -/
def times {α : Type*} (piece : Bytes → Option (α × Bytes)) : ℕ → Bytes → Option (List α × Bytes)
  | 0, bs => some ([], bs)
  | n + 1, bs => do
    let (a, bs) ← piece bs
    let (as, bs) ← times piece n bs
    return (a :: as, bs)

/-- Read two pieces in a row. -/
def twice {α : Type*} (piece : Bytes → Option (α × Bytes)) (bs : Bytes) :
    Option ((α × α) × Bytes) := do
  let (a, bs) ← piece bs
  let (b, bs) ← piece bs
  return ((a, b), bs)

/-- The first `n` bytes. -/
def slice (n : ℕ) (bs : Bytes) : Option (Bytes × Bytes) :=
  if n ≤ bs.length then some (bs.take n, bs.drop n) else none

def readUtf8 (bs : Bytes) : Option String := String.fromUTF8? ⟨bs.toArray⟩

/-- Read an item that is nested at most as deeply as the first argument says; the bytes after it
are returned. -/
def read : ℕ → Bytes → Option (Value × Bytes)
  | 0, _ => none
  | limit + 1, bs => do
    let (major, n, bs) ← readHead bs
    match major with
    | 0 => return (uint n, bs)
    | 1 => return (nint n, bs)
    | 2 =>
      let (b, bs) ← slice n bs
      return (bytes b, bs)
    | 3 =>
      let (b, bs) ← slice n bs
      let s ← readUtf8 b
      return (text s, bs)
    | 4 =>
      let (items, bs) ← times (read limit) n bs
      return (array items, bs)
    | 5 =>
      let (entries, bs) ← times (twice (read limit)) n bs
      return (map entries, bs)
    | 6 =>
      let (v, bs) ← read limit bs
      return (tag n v, bs)
    | _ =>
      match n with
      | 20 => return (bool false, bs)
      | 21 => return (bool true, bs)
      | 22 => return (null, bs)
      | _ => none

/-! ## Sizes -/

/-- How many bytes a head takes. -/
def headSize (n : ℕ) : ℕ :=
  if n < 24 then 1
  else if n < 256 ^ 1 then 2
  else if n < 256 ^ 2 then 3
  else if n < 256 ^ 4 then 5
  else if n < 256 ^ 8 then 9
  else n + 2

@[simp] theorem length_bigEndian (k n : ℕ) : (bigEndian k n).length = k := by
  induction k generalizing n with
  | zero => rfl
  | succ k ih => rw [bigEndian, List.length_cons, ih]

theorem length_head (major n : ℕ) : (head major n).length = headSize n := by
  unfold head headSize
  split_ifs <;> simp [unary]

/-- How many bytes a text takes. -/
def textSize (s : String) : ℕ := headSize (utf8 s).length + (utf8 s).length

mutual

/-- How many bytes an item takes. -/
def size : Value → ℕ
  | uint n => headSize n
  | nint n => headSize n
  | bytes b => headSize b.length + b.length
  | text s => textSize s
  | array items => headSize items.length + sizeItems items
  | map entries => headSize entries.length + sizeEntries entries
  | tag n v => headSize n + v.size
  | bool _ => 1
  | null => 1

def sizeItems : List Value → ℕ
  | [] => 0
  | v :: items => v.size + sizeItems items

def sizeEntries : List (Value × Value) → ℕ
  | [] => 0
  | (k, v) :: entries => k.size + v.size + sizeEntries entries

end

mutual

/-- An item is written in as many bytes as it takes. -/
theorem length_write : ∀ v : Value, v.write.length = v.size
  | uint n => length_head 0 n
  | nint n => length_head 1 n
  | bytes b => by rw [write, size, List.length_append, length_head]
  | text s => by rw [write, size, textSize, List.length_append, length_head]
  | array items => by
    rw [write, size, List.length_append, length_head, length_writeItems items]
  | map entries => by
    rw [write, size, List.length_append, length_head, length_writeEntries entries]
  | tag n v => by rw [write, size, List.length_append, length_head, length_write v]
  | bool b => by cases b <;> rfl
  | null => rfl

theorem length_writeItems : ∀ items : List Value, (writeItems items).length = sizeItems items
  | [] => rfl
  | v :: items => by
    rw [writeItems, sizeItems, List.length_append, length_write v, length_writeItems items]

theorem length_writeEntries :
    ∀ entries : List (Value × Value), (writeEntries entries).length = sizeEntries entries
  | [] => rfl
  | (k, v) :: entries => by
    rw [writeEntries, sizeEntries, List.length_append, List.length_append, length_write k,
      length_write v, length_writeEntries entries]

end

theorem sizeItems_eq_sum (items : List Value) : sizeItems items = (items.map size).sum := by
  induction items with
  | nil => rfl
  | cons v items ih => rw [sizeItems, ih, List.map_cons, List.sum_cons]

/-! ## Round trip -/

theorem readUtf8_utf8 (s : String) : readUtf8 (utf8 s) = some s := by
  have valid : s.toByteArray.IsValidUTF8 := s.isValidUTF8
  have whole : (⟨(utf8 s).toArray⟩ : ByteArray) = s.toByteArray := by
    simp [utf8]
  rw [readUtf8, whole, String.fromUTF8?, dif_pos valid]
  rfl

/-- What can be read of the first bytes of a text is a beginning of it. -/
theorem isPrefix_of_readUtf8_take {s t : String} {n : ℕ}
    (read : readUtf8 ((utf8 t).take n) = some s) : s.toList <+: t.toList := by
  have bytes : s.toByteArray = ⟨((utf8 t).take n).toArray⟩ := by
    unfold readUtf8 String.fromUTF8? at read
    split at read
    · rw [← Option.some.inj read]
      rfl
    · cases read
  refine List.isPrefix_of_utf8Encode_append_eq_utf8Encode ⟨((utf8 t).drop n).toArray⟩ ?_
  rw [String.utf8Encode_toList, String.utf8Encode_toList, bytes]
  apply ByteArray.ext
  simp [utf8]

theorem slice_append (b rest : Bytes) : slice b.length (b ++ rest) = some (b, rest) := by
  simp [slice]

theorem times_read {piece : Bytes → Option (Value × Bytes)} {items : List Value}
    (h : ∀ v ∈ items, ∀ rest, piece (v.write ++ rest) = some (v, rest)) (rest : Bytes) :
    times piece items.length (writeItems items ++ rest) = some (items, rest) := by
  induction items with
  | nil => rfl
  | cons v items ih =>
    have first := h v List.mem_cons_self (writeItems items ++ rest)
    have others := ih fun v hv => h v (List.mem_cons_of_mem _ hv)
    simp [writeItems, times, first, others]

theorem times_twice_read {piece : Bytes → Option (Value × Bytes)} {entries : List (Value × Value)}
    (h : ∀ e ∈ entries, ∀ rest, piece (e.1.write ++ rest) = some (e.1, rest) ∧
      piece (e.2.write ++ rest) = some (e.2, rest)) (rest : Bytes) :
    times (twice piece) entries.length (writeEntries entries ++ rest) = some (entries, rest) := by
  induction entries with
  | nil => rfl
  | cons e entries ih =>
    obtain ⟨k, v⟩ := e
    have key := (h (k, v) List.mem_cons_self (v.write ++ (writeEntries entries ++ rest))).1
    have value := (h (k, v) List.mem_cons_self (writeEntries entries ++ rest)).2
    have others := ih fun e he => h e (List.mem_cons_of_mem _ he)
    simp [writeEntries, times, twice, key, value, others]

theorem depth_le_depthItems {v : Value} {items : List Value} (h : v ∈ items) :
    v.depth ≤ depthItems items := by
  induction items with
  | nil => cases h
  | cons w items ih =>
    rcases List.mem_cons.1 h with rfl | h
    · exact le_max_left ..
    · exact (ih h).trans (le_max_right ..)

theorem depth_le_depthEntries {e : Value × Value} {entries : List (Value × Value)}
    (h : e ∈ entries) : e.1.depth ≤ depthEntries entries ∧ e.2.depth ≤ depthEntries entries := by
  induction entries with
  | nil => cases h
  | cons f entries ih =>
    rcases List.mem_cons.1 h with rfl | h
    · simp only [depthEntries]
      omega
    · have := ih h
      simp only [depthEntries]
      omega

/-- An item is read back from its bytes, whatever follows them. The induction is on the limit,
which bounds the nesting of what is inside the item. -/
theorem read_write {limit : ℕ} {v : Value} (h : v.depth ≤ limit) (rest : Bytes) :
    read limit (v.write ++ rest) = some (v, rest) := by
  induction limit generalizing v rest with
  | zero => cases v <;> simp [depth] at h
  | succ limit ih =>
    cases v with
    | uint n => simp [write, read, readHead_head]
    | nint n => simp [write, read, readHead_head]
    | bytes b => simp [write, read, readHead_head, slice_append]
    | text s => simp [write, read, readHead_head, slice_append, readUtf8_utf8]
    | array items =>
      have inside : ∀ v ∈ items, ∀ rest, read limit (v.write ++ rest) = some (v, rest) := by
        intro v hv rest
        have := depth_le_depthItems hv
        rw [depth] at h
        exact ih (by omega) rest
      simp [write, read, readHead_head, times_read inside]
    | map entries =>
      have inside : ∀ e ∈ entries, ∀ rest, read limit (e.1.write ++ rest) = some (e.1, rest) ∧
          read limit (e.2.write ++ rest) = some (e.2, rest) := by
        intro e he rest
        have := depth_le_depthEntries he
        rw [depth] at h
        exact ⟨ih (by omega) rest, ih (by omega) rest⟩
      simp [write, read, readHead_head, times_twice_read inside]
    | tag n v =>
      rw [depth] at h
      simp [write, read, readHead_head, ih (show v.depth ≤ limit by omega)]
    | bool b => cases b <;> simp [write, read, readHead_head]
    | null => simp [write, read, readHead_head]

/-! ## Records and variants -/

/-- A record: field names with their values. -/
def record (fields : List (String × Value)) : Value := map (fields.map fun f => (text f.1, f.2))

/-- A variant of an enumeration, tagged by its name. -/
def variant (name : String) (content : Value) : Value := map [(text name, content)]

/-- The name and the content of a variant. -/
def variant? : Value → Option (String × Value)
  | map [(text name, content)] => some (name, content)
  | _ => none

/-- The fields of a record; an entry whose key is no text is not a field. -/
def fields? : Value → Option (List (String × Value))
  | map entries => some (entries.filterMap fun
    | (text name, v) => some (name, v)
    | _ => none)
  | _ => none

@[simp] theorem variant?_variant (name : String) (content : Value) :
    (variant name content).variant? = some (name, content) := rfl

@[simp] theorem fields?_record (fields : List (String × Value)) :
    (record fields).fields? = some fields := by
  simp [record, fields?, List.filterMap_map]

theorem depthEntries_record {fields : List (String × Value)} {d : ℕ} (positive : 0 < d)
    (h : ∀ f ∈ fields, f.2.depth ≤ d) :
    depthEntries (fields.map fun f => (text f.1, f.2)) ≤ d := by
  induction fields with
  | nil => exact Nat.zero_le d
  | cons f fields ih =>
    have first := h f List.mem_cons_self
    have others := ih fun f hf => h f (List.mem_cons_of_mem _ hf)
    have name : (text f.1).depth = 1 := by simp [depth]
    simp only [List.map_cons, depthEntries, name]
    omega

/-- A variant is nested two levels deeper than its fields. -/
theorem depth_variant_record {name : String} {fields : List (String × Value)} {d : ℕ}
    (positive : 0 < d) (h : ∀ f ∈ fields, f.2.depth ≤ d) :
    (variant name (record fields)).depth ≤ d + 2 := by
  have inside := depthEntries_record positive h
  simp only [variant, record, depth, depthEntries]
  omega

end Value

/-! ## Fields -/

/-- A type whose values are written as items of at most the given depth and can be read back. -/
structure FieldCodec (α : Type*) (d : ℕ) where
  toValue : α → Value
  ofValue : Value → Option α
  ofValue_toValue : ∀ a, ofValue (toValue a) = some a
  depth_toValue : ∀ a, (toValue a).depth ≤ d

namespace FieldCodec

variable {α : Type*} {d : ℕ}

def string : FieldCodec String 1 where
  toValue := .text
  ofValue
    | .text s => some s
    | _ => none
  ofValue_toValue _ := rfl
  depth_toValue _ := by simp [Value.depth]

def bool : FieldCodec Bool 1 where
  toValue := .bool
  ofValue
    | .bool b => some b
    | _ => none
  ofValue_toValue _ := rfl
  depth_toValue _ := by simp [Value.depth]

/-- A byte, as a number. -/
def byte : FieldCodec UInt8 1 where
  toValue b := .uint b.toNat
  ofValue
    | .uint n => if n < 256 then some (UInt8.ofNat n) else none
    | _ => none
  ofValue_toValue b := by simp [b.toNat_lt]
  depth_toValue _ := by simp [Value.depth]

/-- Bytes, as a byte string. -/
def byteString (n : ℕ) : FieldCodec (Vector UInt8 n) 1 where
  toValue v := .bytes v.toList
  ofValue
    | .bytes b => if h : b.length = n then some ⟨b.toArray, by simpa using h⟩ else none
    | _ => none
  ofValue_toValue v := by simp [Vector.toArray_toList]
  depth_toValue _ := by simp [Value.depth]

theorem mapM_toValue (c : FieldCodec α d) (l : List α) :
    (l.map c.toValue).mapM c.ofValue = some l := by
  rw [mapM_eq_some_iff, List.forall₂_map_left_iff, List.forall₂_same]
  exact fun a _ => c.ofValue_toValue a

theorem depthItems_map (c : FieldCodec α d) (l : List α) :
    Value.depthItems (l.map c.toValue) ≤ d := by
  induction l with
  | nil => exact Nat.zero_le d
  | cons a l ih => exact max_le (c.depth_toValue a) ih

/-- A sequence, as an array. -/
def list (c : FieldCodec α d) : FieldCodec (List α) (d + 1) where
  toValue l := .array (l.map c.toValue)
  ofValue
    | .array items => items.mapM c.ofValue
    | _ => none
  ofValue_toValue l := c.mapM_toValue l
  depth_toValue l := by
    have := c.depthItems_map l
    simp only [Value.depth]
    omega

/-- A sequence of fixed length, as an array of that length. -/
def vector (c : FieldCodec α d) (n : ℕ) : FieldCodec (Vector α n) (d + 1) where
  toValue v := .array (v.toList.map c.toValue)
  ofValue
    | .array items => (items.mapM c.ofValue).bind fun l =>
      if h : l.length = n then some ⟨l.toArray, by simpa using h⟩ else none
    | _ => none
  ofValue_toValue v := by
    simp only [c.mapM_toValue v.toList, Option.bind_some]
    simp [Vector.toArray_toList]
  depth_toValue v := by
    have := c.depthItems_map v.toList
    simp only [Value.depth]
    omega

end FieldCodec

/-- Why an item is not a record that is expected. -/
inductive DecodeError where
  | malformed
  | notAVariant
  | unknownVariant (name : String)
  | missingField (name : String)
  | duplicateField (name : String)
  | invalidType (name : String)
  deriving DecidableEq

section Fields

variable {α : Type*} {d : ℕ}

/-- Read a field that may be absent. Other fields make no difference. -/
def getField? (c : FieldCodec α d) (name : String) (fields : List (String × Value)) :
    Except DecodeError (Option α) :=
  match fields.filter fun f => f.1 = name with
  | [] => .ok none
  | [f] =>
    match c.ofValue f.2 with
    | some a => .ok (some a)
    | none => .error (.invalidType name)
  | _ => .error (.duplicateField name)

/-- Read a field. -/
def getField (c : FieldCodec α d) (name : String) (fields : List (String × Value)) :
    Except DecodeError α :=
  match getField? c name fields with
  | .ok (some a) => .ok a
  | .ok none => .error (.missingField name)
  | .error e => .error e

end Fields

end Zodia.Lib
