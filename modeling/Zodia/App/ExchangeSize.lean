import Mathlib.Algebra.Group.Action.Defs
import Mathlib.Algebra.Order.BigOperators.Group.List
import Zodia.App.InterpSync
import Zodia.Ops.Cbor

/-!
# The size of a Tier-1 exchange

The exchange sends one message with up to a hundred signed texts of the store, and the channel
refuses a message of more than 1 MiB. Nothing bounds the length of a text but the channel it
came over, so texts that arrived in several messages need not fit into one. Then nothing is
sent, and the other side takes the next message for the share.

## Main definitions

* `InterpEntry.toValue`, `encodeShare`, `decodeShare` — the message on the wire.
* `sendRaw`, `recvRaw` — one direction of a channel.
* `ShareEvent.step` — how a store fills.
* `SharesFit`, `RowsFit` — every share gets through; the rows it is made of are short enough.

## Main results

* `length_encodeShare` — the size of the message.
* `shares_fit_iff` — in which runs every share gets through.
* `shares_fit_of_short` — with texts of at most ten thousand bytes it does.
-/

namespace Zodia.App

open Lib Ops Store

/-! ## The message -/

/-- A text on the wire. The signature is a vector of any length there. -/
structure InterpEntry where
  interpKey : String
  body : String
  authorPk : Bytes32
  authorSig : Bytes
  deriving DecidableEq

namespace InterpEntry

def fields (e : InterpEntry) : List (String × Value) :=
  [("interp_key", text.toValue e.interpKey), ("body", text.toValue e.body),
    ("author_pk", byteArray32.toValue e.authorPk), ("author_sig", byteVec.toValue e.authorSig)]

def toValue (e : InterpEntry) : Value := .record e.fields

def ofValue (v : Value) : Except DecodeError InterpEntry := do
  let fields ← variantFields "InterpEntry" v
  return ⟨← getField text "interp_key" fields, ← getField text "body" fields,
    ← getField byteArray32 "author_pk" fields, ← getField byteVec "author_sig" fields⟩

theorem ofValue_toValue (e : InterpEntry) : ofValue e.toValue = .ok e := by
  simp [ofValue, toValue, fields, getField, getField?, FieldCodec.ofValue_toValue]

theorem depth_fields (e : InterpEntry) : ∀ f ∈ e.fields, f.2.depth ≤ 2 := by
  have deeper : ∀ {α : Type} {d : ℕ} (c : FieldCodec α d) (a : α), d ≤ 2 →
      (c.toValue a).depth ≤ 2 := fun c a hd => (c.depth_toValue a).trans hd
  simp [fields, deeper]

theorem depth_toValue (e : InterpEntry) : e.toValue.depth ≤ 3 := by
  have entries := Value.depthEntries_record (by decide) e.depth_fields
  simp only [toValue, Value.record, Value.depth]
  omega

theorem toOption_ofValue_toValue (e : InterpEntry) : (ofValue e.toValue).toOption = some e := by
  rw [ofValue_toValue]
  rfl

def codec : FieldCodec InterpEntry 3 where
  toValue := toValue
  ofValue v := (ofValue v).toOption
  ofValue_toValue := toOption_ofValue_toValue
  depth_toValue := depth_toValue

end InterpEntry

/-- `ChannelMsg::InterpShare` -/
def shareValue (entries : List InterpEntry) : Value :=
  .variant "InterpShare" (.record [("entries", InterpEntry.codec.list.toValue entries)])

def encodeShare (entries : List InterpEntry) : Bytes := (shareValue entries).write

/-- What the exchange makes of a message: another variant is an error too. -/
def shareOfValue (v : Value) : Except DecodeError (List InterpEntry) :=
  match v.variant? with
  | none => .error .notAVariant
  | some (name, content) => do
    if name = "InterpShare" then
      let fields ← variantFields name content
      getField InterpEntry.codec.list "entries" fields
    else .error (.unknownVariant name)

def decodeShare (bytes : Bytes) : Except DecodeError (List InterpEntry) :=
  fromReader shareOfValue bytes

/-- A share is read back. -/
theorem decodeShare_encodeShare (entries : List InterpEntry) :
    decodeShare (encodeShare entries) = .ok entries := by
  have inside : ∀ f ∈ [("entries", InterpEntry.codec.list.toValue entries)], f.2.depth ≤ 4 := by
    simpa using InterpEntry.codec.list.depth_toValue entries
  have depth : (shareValue entries).depth ≤ recursionLimit :=
    (Value.depth_variant_record (by decide) inside).trans (by decide)
  rw [decodeShare, encodeShare, fromReader_write depth]
  simp [shareOfValue, shareValue, getField, getField?, FieldCodec.ofValue_toValue]

/-! ### Its size -/

/-- How many bytes an array of bytes takes: one or two for each. -/
def numbersSize (bytes : Bytes) : ℕ :=
  Value.headSize bytes.length + (bytes.map fun b => Value.headSize b.toNat).sum

/-- How many bytes a text takes with its key, author and signature. -/
def entrySize (interpKey body : String) (authorPk : Bytes32) (authorSig : Bytes) : ℕ :=
  38 + Value.textSize interpKey + Value.textSize body + numbersSize authorPk.toList +
    numbersSize authorSig

def InterpEntry.size (e : InterpEntry) : ℕ :=
  entrySize e.interpKey e.body e.authorPk e.authorSig

/-- How many bytes a share of that many texts takes, with the sum of their sizes. -/
def shareSize (count total : ℕ) : ℕ := 22 + Value.headSize count + total

theorem size_numbers (bytes : Bytes) :
    (byteVec.toValue bytes).size = numbersSize bytes := by
  simp [FieldCodec.list, FieldCodec.byte, Value.size, Value.sizeItems_eq_sum, numbersSize,
    Function.comp_def]

theorem InterpEntry.size_toValue (e : InterpEntry) : e.toValue.size = e.size := by
  have key : (byteArray32.toValue e.authorPk).size = numbersSize e.authorPk.toList :=
    size_numbers e.authorPk.toList
  have names : Value.textSize "interp_key" = 11 ∧ Value.textSize "body" = 5 ∧
      Value.textSize "author_pk" = 10 ∧ Value.textSize "author_sig" = 11 := by decide
  simp only [toValue, fields, Value.record, List.map_cons, List.map_nil, Value.size,
    Value.sizeEntries, key, size_numbers, names, FieldCodec.string, InterpEntry.size, entrySize,
    List.length_cons, List.length_nil, Value.headSize]
  simp
  omega

theorem length_encodeShare (entries : List InterpEntry) :
    (encodeShare entries).length = shareSize entries.length (entries.map (·.size)).sum := by
  have names : Value.textSize "InterpShare" = 12 ∧ Value.textSize "entries" = 8 := by decide
  have sizes : (InterpEntry.codec.list.toValue entries).size =
      Value.headSize entries.length + (entries.map (·.size)).sum := by
    simp [FieldCodec.list, InterpEntry.codec, Value.size, Value.sizeItems_eq_sum,
      Function.comp_def, InterpEntry.size_toValue]
  rw [encodeShare, Value.length_write, shareValue, Value.variant, Value.record]
  simp only [List.map_cons, List.map_nil, Value.size, Value.sizeEntries, names, sizes, shareSize,
    List.length_cons, List.length_nil]
  have one : Value.headSize (0 + 1) = 1 := rfl
  omega

/-! ## The channel -/

/-- `MAX_MSG_BYTES` -/
def maxMsgBytes : ℕ := 1024 * 1024

inductive ChannelError where
  | tooLarge (len : ℕ)
  | decode (e : DecodeError)

/-- Send a frame on a stream of its own. The frames of one direction, oldest first, are what the
other side has not yet accepted. -/
def sendRaw (frames : List Bytes) (bytes : Bytes) : Except ChannelError (List Bytes) :=
  if maxMsgBytes < bytes.length then .error (.tooLarge (bytes.length % 2 ^ 32))
  else .ok (frames ++ [bytes])

/-- Receive the next frame, if there is one. -/
def recvRaw : List Bytes → Option (Except ChannelError Bytes)
  | [] => none
  | bytes :: _ =>
    if maxMsgBytes < bytes.length then some (.error (.tooLarge bytes.length))
    else some (.ok bytes)

/-- What there is to receive after a frame was sent; an error is only logged. -/
def afterSend (frames : List Bytes) (bytes : Bytes) : List Bytes :=
  match sendRaw frames bytes with
  | .ok frames => frames
  | .error _ => frames

/-- What the exchange of the other side returns; `none` while it waits. -/
def theirExchange (frames : List Bytes) : Option (Except ChannelError (List InterpEntry)) :=
  (recvRaw frames).map fun received => received.bind fun bytes =>
    (decodeShare bytes).mapError .decode

theorem head?_afterSend {frames : List Bytes} {first : Bytes} (h : frames.head? = some first)
    (bytes : Bytes) : (afterSend frames bytes).head? = some first := by
  unfold afterSend sendRaw
  split_ifs
  · exact h
  · rw [List.head?_append, h]
    rfl

/-- What was sent first is received first, whatever is sent after it. -/
theorem head?_foldl_afterSend {frames : List Bytes} {first : Bytes}
    (h : frames.head? = some first) (later : List Bytes) :
    (later.foldl afterSend frames).head? = some first := by
  induction later generalizing frames with
  | nil => exact h
  | cons bytes later ih => exact ih (head?_afterSend h bytes)

/-- The share gets through: it is not too large, the exchange does not fail on its size, and
the other side's exchange returns it, whatever is sent later. -/
structure ShareFits (entries : List InterpEntry) : Prop where
  size : (encodeShare entries).length ≤ maxMsgBytes
  sends : ∀ frames, sendRaw frames (encodeShare entries) = .ok (frames ++ [encodeShare entries])
  received : ∀ later : List Bytes,
    theirExchange (later.foldl afterSend (afterSend [] (encodeShare entries))) =
      some (.ok entries)

theorem shareFits_iff {entries : List InterpEntry} : ShareFits entries ↔
    shareSize entries.length (entries.map (·.size)).sum ≤ maxMsgBytes := by
  rw [← length_encodeShare]
  refine ⟨ShareFits.size, fun size => ⟨size, fun _ => if_neg (by omega), fun later => ?_⟩⟩
  have sent : (afterSend [] (encodeShare entries)).head? = some (encodeShare entries) := by
    rw [afterSend, sendRaw, if_neg (by omega)]
    rfl
  have first := head?_foldl_afterSend sent later
  obtain ⟨rest, frames⟩ := List.head?_eq_some_iff.1 first
  rw [theirExchange, frames, recvRaw, if_neg (by omega), Option.map_some, Except.bind,
    decodeShare_encodeShare]
  rfl

/-- A share that is too large is not there to be received: the other side's exchange takes the
next message for it. -/
theorem theirExchange_of_tooLarge {entries : List InterpEntry}
    (large : maxMsgBytes < (encodeShare entries).length) (later : List Bytes) :
    theirExchange (later.foldl afterSend (afterSend [] (encodeShare entries))) =
      theirExchange (later.foldl afterSend []) := by
  rw [afterSend, sendRaw, if_pos large]

/-! ## The store -/

variable {Digest Secret VerifyingKey Chart : Type}

/-- 64 bytes -/
abbrev SigBytes := Vector UInt8 64

def CommunityEntry.toInterpEntry (e : CommunityEntry SigBytes) : InterpEntry :=
  ⟨e.interpKey, e.body, e.authorPk, e.authorSig.toList⟩

/-- Whether the operation is one that received texts are imported with. -/
def Imports : StoreOp Digest SigBytes → Prop
  | .insertReceived .. => True
  | _ => False

/-- What fills the store: a frame from a peer, in the exchange or later, and any operation of
the store on anything but such a frame. -/
inductive ShareEvent (Digest : Type) where
  | received (frame : Bytes) (now : ℕ)
  | store (op : StoreOp Digest SigBytes) (own : ¬ Imports op)

/-- The operations that import received texts; a signature of another length is skipped. -/
def importInterps (entries : List InterpEntry) (now : ℕ) : List (StoreOp Digest SigBytes) :=
  entries.filterMap fun e =>
    if h : e.authorSig.length = 64 then
      some (.insertReceived e.interpKey e.body e.authorPk
        ⟨e.authorSig.toArray, List.size_toArray.trans h⟩ now)
    else none

theorem importInterps_toInterpEntry (e : CommunityEntry SigBytes) (now : ℕ) :
    (importInterps [e.toInterpEntry] now : List (StoreOp Digest SigBytes)) =
      [.insertReceived e.interpKey e.body e.authorPk e.authorSig now] := by
  simp [importInterps, CommunityEntry.toInterpEntry, Vector.toArray_toList]

/-- What the event asks of the store. -/
def ShareEvent.storeOps : ShareEvent Digest → List (StoreOp Digest SigBytes)
  | received frame now =>
    match theirExchange [frame] with
    | some (.ok entries) => importInterps entries now
    | _ => []
  | store op _ => [op]

section Store

variable [DecidableEq Digest] (hash : Hash Digest) (asBytes : Digest → Bytes)
  (S : SignatureScheme Secret VerifyingKey Digest SigBytes)

def ShareEvent.step (db : Db Digest SigBytes) (e : ShareEvent Digest) : Db Digest SigBytes :=
  exec (Db.step hash asBytes S) db e.storeOps

variable (A : AspectKeys Chart) (db : Db Digest SigBytes)

/-- Every share that the store may make for two charts gets through. -/
def SharesFit : Prop :=
  ∀ theirChart ourChart entries, InterpShare A db theirChart ourChart entries →
    ShareFits (entries.map (·.toInterpEntry))

/-- How many bytes a signed row takes in a share. -/
def rowSize (r : InterpRow Digest SigBytes) : ℕ :=
  match r.authorPk, r.authorSig with
  | some authorPk, some authorSig => entrySize r.interpKey r.body authorPk authorSig.toList
  | _, _ => 0

/-- For every two charts, the signed rows under their keys that are affirmed most, a hundred at
most, take no more than a message together. -/
def RowsFit : Prop :=
  ∀ theirChart ourChart rows, A.keySigs theirChart ourChart ≠ [] →
    CommunityRows db (A.keySigs theirChart ourChart) 100 rows →
      shareSize rows.length (rows.map rowSize).sum ≤ maxMsgBytes

variable {hash asBytes S A db}

/-! ### When every share gets through -/

omit [DecidableEq Digest] in
/-- The entries take what the rows take that they were made of. -/
theorem sizes_of_decoded {rows : List (InterpRow Digest SigBytes)}
    {out : List (CommunityEntry SigBytes)} (decoded : rows.mapM communityEntry = some out) :
    out.length = rows.length ∧
      ((out.map (·.toInterpEntry)).map (·.size)).sum = (rows.map rowSize).sum := by
  have entries := mapM_eq_some_iff.1 decoded
  clear decoded
  induction entries with
  | nil => exact ⟨rfl, rfl⟩
  | @cons r e rows out first others ih =>
    obtain ⟨key, body, author, sig⟩ := communityEntry_eq_some.1 first
    obtain ⟨count, total⟩ := ih
    have size : e.toInterpEntry.size = rowSize r := by
      rw [rowSize, author, sig, key, body]
      rfl
    refine ⟨by rw [List.length_cons, List.length_cons, count], ?_⟩
    rw [List.map_cons, List.map_cons, List.sum_cons, List.map_cons, List.sum_cons, total, size]

/-- In a store that was filled by operations. -/
theorem sharesFit_iff (ops : List (StoreOp Digest SigBytes)) :
    SharesFit A (exec (Db.step hash asBytes S) Db.empty ops) ↔
      RowsFit A (exec (Db.step hash asBytes S) Db.empty ops) := by
  have exact : ∀ {rows : List (InterpRow Digest SigBytes)} {out : List (CommunityEntry SigBytes)},
      rows.mapM communityEntry = some out →
      (ShareFits (out.map (·.toInterpEntry)) ↔
        shareSize rows.length (rows.map rowSize).sum ≤ maxMsgBytes) := by
    intro rows out decoded
    obtain ⟨count, total⟩ := sizes_of_decoded decoded
    rw [shareFits_iff, List.length_map, count, total]
  constructor
  · intro fits theirs ours rows keys read
    obtain ⟨out, decoded, -⟩ := read.decode
    refine (exact decoded).1 (fits theirs ours out (.read ?_))
    rw [CommunityEntries, if_neg keys]
    exact ⟨rows, read, decoded⟩
  · intro fits theirs ours entries share
    have nothing : ShareFits [] := shareFits_iff.2 (by decide)
    cases share with
    | failed => exact nothing
    | read h =>
      rw [CommunityEntries] at h
      split_ifs at h with keys
      · rw [h]
        exact nothing
      · obtain ⟨rows, read, decoded⟩ := h
        exact (exact decoded).2 (fits theirs ours rows keys read)

variable (hash asBytes S A)

/-- What the events ask of the store, one after the other. -/
theorem exec_step_eq (es : List (ShareEvent Digest)) (db : Db Digest SigBytes) :
    exec (ShareEvent.step hash asBytes S) db es =
      exec (Db.step hash asBytes S) db (es.flatMap (·.storeOps)) := by
  induction es generalizing db with
  | nil => rfl
  | cons e es ih =>
    rw [exec_cons, ih, List.flatMap_cons, exec_append]
    rfl

/-- A store that operations of a kind have filled. -/
def FilledBy (good : StoreOp Digest SigBytes → Prop) (db : Db Digest SigBytes) : Prop :=
  ∃ ops, db = exec (Db.step hash asBytes S) Db.empty ops ∧ ∀ op ∈ ops, good op

theorem filledBy_empty (good : StoreOp Digest SigBytes → Prop) :
    FilledBy hash asBytes S good Db.empty := ⟨[], rfl, by simp⟩

variable {hash asBytes S} in
theorem FilledBy.step {good : StoreOp Digest SigBytes → Prop} {db : Db Digest SigBytes}
    (h : FilledBy hash asBytes S good db) {e : ShareEvent Digest}
    (new : ∀ op ∈ e.storeOps, good op) :
    FilledBy hash asBytes S good (e.step hash asBytes S db) := by
  obtain ⟨ops, rfl, old⟩ := h
  refine ⟨ops ++ e.storeOps, (exec_append _ _ _).symm, fun op hop => ?_⟩
  rcases List.mem_append.1 hop with h | h
  · exact old op h
  · exact new op h

/-- **In every state of a run all shares get through exactly when in every state the signed rows
that are affirmed most take no more than a message together, for every two charts.** -/
theorem shares_fit_iff (es : List (ShareEvent Digest)) :
    Always (ShareEvent.step hash asBytes S) (SharesFit A) Db.empty es ↔
      Always (ShareEvent.step hash asBytes S) (RowsFit A) Db.empty es := by
  have keep : ∀ (db : Db Digest SigBytes) (e : ShareEvent Digest),
      FilledBy hash asBytes S (fun _ => True) db →
      FilledBy hash asBytes S (fun _ => True) (e.step hash asBytes S db) :=
    fun db e h => h.step fun _ _ => trivial
  have exactly : ∀ db, FilledBy hash asBytes S (fun _ => True) db →
      (SharesFit A db ↔ RowsFit A db) := by
    rintro _ ⟨ops, rfl, -⟩
    exact sharesFit_iff ops
  exact Always.congr_of_invariant keep exactly (filledBy_empty hash asBytes S _) es

/-! ### Short texts -/

/-- What a text may take so that a hundred fit. -/
def shortSize : ℕ := 10485

/-- The texts that the operation signs for are short. -/
def Short (op : StoreOp Digest SigBytes) : Prop :=
  ∀ e, Signs hash S op e → e.toInterpEntry.size ≤ shortSize

variable {hash asBytes S A}

/-- No hundred short texts are too large together. -/
theorem sharesFit_of_short {ops : List (StoreOp Digest SigBytes)}
    (short : ∀ op ∈ ops, Short hash S op) :
    SharesFit A (exec (Db.step hash asBytes S) Db.empty ops) := by
  intro theirs ours entries share
  have small : ∀ e ∈ entries, e.toInterpEntry.size ≤ shortSize := by
    intro e he
    obtain ⟨op, ⟨before, after, rfl, -, -⟩, signs⟩ := share.vouched e he
    exact short op (by simp) e signs
  have count : entries.length ≤ 100 := by
    cases share with
    | failed => exact Nat.zero_le _
    | read h =>
      rw [CommunityEntries] at h
      split_ifs at h with keys
      · simp [h]
      · obtain ⟨rows, ⟨sorted, -, -, cut⟩, decoded⟩ := h
        rw [(sizes_of_decoded decoded).1, cut]
        exact List.length_take_le 100 sorted
  have total : ((entries.map (·.toInterpEntry)).map (·.size)).sum ≤ 100 * shortSize := by
    have each := List.sum_le_card_nsmul ((entries.map (·.toInterpEntry)).map (·.size)) shortSize
      (by simpa using small)
    simp only [List.length_map, smul_eq_mul] at each
    exact each.trans (Nat.mul_le_mul_right _ count)
  have head : Value.headSize entries.length ≤ 2 := by
    unfold Value.headSize
    split_ifs <;> omega
  rw [shareFits_iff, shareSize, List.length_map]
  rw [shortSize] at total
  rw [maxMsgBytes]
  omega

/-- When every text that enters is short, every share gets through. -/
theorem shares_fit_of_short {es : List (ShareEvent Digest)}
    (short : ∀ e ∈ es, ∀ op ∈ e.storeOps, Short hash S op) :
    Always (ShareEvent.step hash asBytes S) (SharesFit A) Db.empty es := by
  have keep : ∀ (db : Db Digest SigBytes) (e : ShareEvent Digest),
      FilledBy hash asBytes S (Short hash S) db → (∀ op ∈ e.storeOps, Short hash S op) →
      FilledBy hash asBytes S (Short hash S) (e.step hash asBytes S db) :=
    fun db e h new => h.step new
  have grant : ∀ db, FilledBy hash asBytes S (Short hash S) db → SharesFit A db := by
    rintro _ ⟨ops, rfl, all⟩
    exact sharesFit_of_short all
  exact Always.of_invariant keep grant (filledBy_empty hash asBytes S _) (Along.of_forall short _)

end Store

/-! ### Two long texts -/

/-- A text of that many letters. -/
def longText : ℕ → String
  | 0 => ""
  | n + 1 => "a" ++ longText n

theorem length_longText (n : ℕ) : (utf8 (longText n)).length = n := by
  induction n with
  | zero => rfl
  | succ n ih =>
    have letter : (utf8 "a").length = 1 := by decide
    rw [longText, utf8_append, List.length_append, ih, letter, Nat.add_comm]

/-- Signatures of 64 bytes that name their key. -/
def namedSignatures : SignatureScheme UInt8 Bytes32 Bytes SigBytes where
  publicKey sk := Vector.replicate 32 sk
  sign sk _ := Vector.replicate 64 sk
  fromBytes pk := some pk
  verify vk _ sig := decide (sig.toList.head? = vk.toList.head?)

/-- A signed text of that length about the sun and the moon. -/
def longEntry (n : ℕ) : CommunityEntry SigBytes :=
  ⟨"natal:sun_trine_moon", longText n, Vector.replicate 32 7, Vector.replicate 64 7⟩

theorem size_longEntry {n : ℕ} (low : 524288 ≤ n) (high : n ≤ 1000000) :
    (longEntry n).toInterpEntry.size = 164 + n := by
  have key : Value.textSize "natal:sun_trine_moon" = 21 := by decide
  have author : numbersSize (Vector.replicate 32 (7 : UInt8)).toList = 34 := by decide
  have sig : numbersSize (Vector.replicate 64 (7 : UInt8)).toList = 66 := by decide
  have head : Value.headSize n = 5 := by
    unfold Value.headSize
    split_ifs <;> omega
  simp only [CommunityEntry.toInterpEntry, longEntry, InterpEntry.size, entrySize, key, author, sig]
  rw [Value.textSize, length_longText, head]
  omega

/-- Two peers share a text each. -/
def longShares (n : ℕ) : List (ShareEvent Bytes) :=
  [.received (encodeShare [(longEntry n).toInterpEntry]) 1,
    .received (encodeShare [(longEntry (n + 1)).toInterpEntry]) 2]

/-- The chart with the aspect they are about. -/
def sunTrineMoon : AspectKeys Unit := ⟨fun _ => ["natal:sun_trine_moon"], fun _ _ => []⟩

/-- Each of them fits into a message and is imported. -/
theorem storeOps_received {n : ℕ} (low : 524288 ≤ n) (high : n ≤ 1000000) (now : ℕ) :
    (ShareEvent.received (encodeShare [(longEntry n).toInterpEntry]) now :
        ShareEvent Bytes).storeOps =
      [.insertReceived "natal:sun_trine_moon" (longText n) (Vector.replicate 32 7)
        (Vector.replicate 64 7) now] := by
  have share : ShareFits [(longEntry n).toInterpEntry] := by
    have one : Value.headSize 1 = 1 := rfl
    rw [shareFits_iff]
    simp only [List.length_singleton, List.map_singleton, List.sum_singleton, shareSize, one,
      size_longEntry low high, maxMsgBytes]
    omega
  have alone : afterSend [] (encodeShare [(longEntry n).toInterpEntry]) =
      [encodeShare [(longEntry n).toInterpEntry]] := by
    rw [afterSend, share.sends]
    rfl
  have read := share.received []
  rw [List.foldl_nil, alone] at read
  rw [ShareEvent.storeOps, read]
  exact importInterps_toInterpEntry (longEntry n) now

/-- The row of such a text. -/
def longRow (n now : ℕ) : InterpRow Bytes SigBytes :=
  receivedRow id "natal:sun_trine_moon" (longText n) (Vector.replicate 32 7)
    (Vector.replicate 64 7) now

theorem longRow_logId (n now : ℕ) :
    (longRow n now).logId = utf8 "natal:sun_trine_moon" ++ utf8 (longText n) := rfl

/-- Its signature is accepted. -/
theorem step_insertReceived (db : Db Bytes SigBytes) (n now : ℕ)
    (free : db.interpretations.Free (longRow n now).logId) :
    (db.step id id namedSignatures (.insertReceived "natal:sun_trine_moon" (longText n)
        (Vector.replicate 32 7) (Vector.replicate 64 7) now)).interpretations.rows =
      db.interpretations.rows ++ [longRow n now] ∧
    (db.step id id namedSignatures (.insertReceived "natal:sun_trine_moon" (longText n)
        (Vector.replicate 32 7) (Vector.replicate 64 7) now)).affirmations = db.affirmations := by
  have accepted : namedSignatures.accepts (Vector.replicate 32 7)
      (deriveLogId id "natal:sun_trine_moon" (longText n)) (Vector.replicate 64 7) = true := rfl
  simp only [Db.step, insertReceived, accepted, if_true]
  exact ⟨Table.rows_insertOrIgnore free, trivial⟩

/-- Both texts end up in the store, and nothing is affirmed. -/
theorem exec_longShares {n : ℕ} (low : 524288 ≤ n) (high : n < 1000000) :
    let db := exec (ShareEvent.step id id namedSignatures) Db.empty (longShares n)
    db.interpretations.rows = [longRow n 1, longRow (n + 1) 2] ∧
      ∀ logId, db.affirmationCount logId = 0 := by
  have other : (longRow n 1).logId ≠ (longRow (n + 1) 2).logId := by
    intro same
    have lengths := congrArg List.length same
    rw [longRow_logId, longRow_logId, List.length_append, List.length_append, length_longText,
      length_longText] at lengths
    omega
  obtain ⟨first, counts⟩ := step_insertReceived Db.empty n 1 (by simp [Table.Free, Db.empty])
  rw [exec_step_eq, longShares, List.flatMap_cons, List.flatMap_cons, List.flatMap_nil,
    storeOps_received low high.le, storeOps_received (by omega) high, List.append_nil,
    List.singleton_append, exec_cons, exec_cons, exec_nil]
  generalize Db.step id id namedSignatures Db.empty _ = db at first counts ⊢
  obtain ⟨both, counts'⟩ := step_insertReceived db (n + 1) 2 (by
    intro r hr
    rw [← Table.mem_rows, first] at hr
    obtain rfl := List.mem_singleton.1 hr
    exact other)
  refine ⟨both.trans (by rw [first]; rfl), fun logId => ?_⟩
  rw [Db.affirmationCount, counts', counts]
  rfl

/-- Together they no longer fit. -/
theorem long_shares_too_large {n : ℕ} (low : 524288 ≤ n) (high : n < 1000000) :
    ¬ Always (ShareEvent.step id id namedSignatures) (SharesFit sunTrineMoon) Db.empty
      (longShares n) := by
  intro always
  have final := always.last
  obtain ⟨both, unread⟩ := exec_longShares low high
  generalize exec _ Db.empty (longShares n) = db at final both unread
  have read : CommunityRows db ["natal:sun_trine_moon"] 100 [longRow n 1, longRow (n + 1) 2] := by
    refine ⟨[longRow n 1, longRow (n + 1) 2], ?_, by simp [unread], rfl⟩
    rw [both]
    exact .refl _
  have share := final (some ()) none [longEntry n, longEntry (n + 1)]
    (.read ((if_neg (by decide)).mpr ⟨_, read, rfl⟩))
  have total := shareFits_iff.1 share
  have two : Value.headSize 2 = 1 := rfl
  simp only [List.map_cons, List.map_nil, List.sum_cons, List.sum_nil, List.length_cons,
    List.length_nil, shareSize, size_longEntry low high.le, two,
    size_longEntry (by omega : 524288 ≤ n + 1) high, maxMsgBytes] at total
  omega

/-- Two texts of 600 kB. -/
theorem two_texts_too_large :
    ¬ Always (ShareEvent.step id id namedSignatures) (SharesFit sunTrineMoon) Db.empty
      (longShares 600000) := long_shares_too_large (by decide) (by decide)

end Zodia.App
