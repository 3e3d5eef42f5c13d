import Zodia.App.Stargazers
import Zodia.Lib.Text
import Std.Data.String.ToNat

/-!
# The peers files

Connected peers are kept in `peers.tsv`, one line each: peer id, Julian day and
geohash, separated by tabs and written without escapes. The geohash is whatever
string the peer sent; the relay key is not written at all. The peers the user seeks
are kept in `pending.tsv`, one id a line.
-/

namespace Zodia.App

open Lib

variable {F Channel : Type}

/-- How floats are shown and parsed. -/
structure FloatText (F : Type) where
  display : F → String
  parse : String → Option F

/-- The text of a float parses back, and has no separators. -/
structure FloatText.RoundTrips (T : FloatText F) : Prop where
  parse_display : ∀ x, T.parse (T.display x) = some x
  tab_not_mem : ∀ x, '\t' ∉ (T.display x).toList
  newline_not_mem : ∀ x, '\n' ∉ (T.display x).toList

variable (T : FloatText F)

/-! ## Writing -/

/-- The line of a peer, without its newline. -/
def peerLine (peerId : PeerId) (birth : BirthData F) : List Char :=
  hexEncode peerId.toList ++ '\t' :: ((T.display birth.jdn).toList ++ '\t' :: birth.geohash.toList)

/-- The lines of the peers that are connected. -/
def peerLines (stargazers : StargazerMap F Channel) : List (List Char) :=
  stargazers.rows.filterMap fun s => s.connectedBlob.map fun blob => peerLine T s.peerId blob.birth

/-- The text `save_stargazers` writes. -/
def saveStargazers (stargazers : StargazerMap F Channel) : String :=
  String.ofList ((peerLines T stargazers).flatMap fun line => line ++ ['\n'])

/-! ## Reading -/

/-- A peer id from its hexadecimal text. -/
def parsePeerId (idHex : List Char) : Option PeerId := do
  let bytes ← hexDecode idHex
  if h : bytes.length = 32 then some ⟨bytes.toArray, by simpa using h⟩ else none

/-- One line of the file; a line that does not parse is skipped. -/
def parsePeer (line : List Char) : Option (PeerId × ConsentBlob F) := do
  let (idHex, rest) ← splitOnce '\t' line
  let (jdnText, geohash) ← splitOnce '\t' rest
  let jdn ← T.parse (String.ofList jdnText)
  let peerId ← parsePeerId idHex
  return (peerId, {
    birth := ⟨jdn, String.ofList geohash⟩
    prekey := Vector.replicate 32 0
    ephemeral := Vector.replicate 32 0
    relayPk := Vector.replicate 32 0 })

/-- The entries of the file, in order. -/
def peerEntries (content : String) : List (PeerId × ConsentBlob F) :=
  (lines content.toList).filterMap (parsePeer T)

/-- The connected peers that `load_connected_stargazers` returns. -/
def loadConnectedStargazers (content : String) : PeerId → Option (ConsentBlob F) :=
  collect (peerEntries T content)

/-! ## The round trip -/

/-- The blob of a connected peer of the map. -/
def connectedBlob? (stargazers : StargazerMap F Channel) (peerId : PeerId) :
    Option (ConsentBlob F) :=
  (stargazers.find? peerId).bind Stargazer.connectedBlob

/-- After a save, a load yields the connected peers, each with its birth data and its
relay key, and no other peer. -/
def RoundTrips (stargazers : StargazerMap F Channel) : Prop :=
  ∀ peerId,
    (loadConnectedStargazers T (saveStargazers T stargazers) peerId).map
        (fun blob => (blob.birth, blob.relayPk)) =
      (connectedBlob? stargazers peerId).map fun blob => (blob.birth, blob.relayPk)

/-- What survives the file: no relay key, and a geohash that stays on its line. -/
def Storable (blob : ConsentBlob F) : Prop :=
  blob.relayPk = Vector.replicate 32 0 ∧ '\n' ∉ blob.birth.geohash.toList ∧
    blob.birth.geohash.toList.getLast? ≠ some '\r'

/-- What the line of a peer turns into. -/
def storedBlob (birth : BirthData F) : ConsentBlob F where
  birth := ⟨birth.jdn, String.ofList (stripCr birth.geohash.toList)⟩
  prekey := Vector.replicate 32 0
  ephemeral := Vector.replicate 32 0
  relayPk := Vector.replicate 32 0

variable {T}

theorem parsePeerId_hexEncode (peerId : PeerId) :
    parsePeerId (hexEncode peerId.toList) = some peerId := by
  have bytes : peerId.toList.toArray = peerId.toArray := Array.toArray_toList
  simp [parsePeerId, hexDecode_hexEncode, bytes]

/-- A line read back after its carriage return is stripped. -/
theorem parsePeer_peerLine (hT : T.RoundTrips) (peerId : PeerId) (birth : BirthData F) :
    parsePeer T (stripCr (peerLine T peerId birth)) = some (peerId, storedBlob birth) := by
  have line : stripCr (peerLine T peerId birth) = hexEncode peerId.toList ++
      '\t' :: ((T.display birth.jdn).toList ++ '\t' :: stripCr birth.geohash.toList) := by
    rw [peerLine, ← List.cons_append, ← List.append_assoc, stripCr_append _ (by decide)]
    simp
  rw [line]
  simp [parsePeer, splitOnce_append (not_mem_hexEncode peerId.toList).1,
    splitOnce_append (hT.tab_not_mem birth.jdn), hT.parse_display, parsePeerId_hexEncode,
    storedBlob]

theorem newline_not_mem_peerLine (hT : T.RoundTrips) {peerId : PeerId} {birth : BirthData F}
    (h : '\n' ∉ birth.geohash.toList) : '\n' ∉ peerLine T peerId birth := by
  have id := (not_mem_hexEncode peerId.toList).2
  have jdn := hT.newline_not_mem birth.jdn
  simp [peerLine, id, jdn, h]

/-! ## What a load finds -/

section Load

variable {stargazers : StargazerMap F Channel}

theorem connectedBlob?_eq_some {peerId : PeerId} {blob : ConsentBlob F} :
    connectedBlob? stargazers peerId = some blob ↔
      ∃ s ∈ stargazers, s.peerId = peerId ∧ s.connectedBlob = some blob := by
  simp only [connectedBlob?, Option.bind_eq_some_iff, Table.find?_eq_some, and_assoc]

/-- No geohash of a connected peer has a newline. -/
def OnOneLine (stargazers : StargazerMap F Channel) : Prop :=
  ∀ s ∈ stargazers, ∀ blob, s.connectedBlob = some blob → '\n' ∉ blob.birth.geohash.toList

/-- With every geohash on one line, the file has one entry for each connected peer. -/
theorem peerEntries_save (hT : T.RoundTrips) (h : OnOneLine stargazers) :
    peerEntries T (saveStargazers T stargazers) = stargazers.rows.filterMap fun s =>
      s.connectedBlob.map fun blob => (s.peerId, storedBlob blob.birth) := by
  have pieces : ∀ line ∈ peerLines T stargazers, '\n' ∉ line := by
    intro line hline
    obtain ⟨s, hs, found⟩ := List.mem_filterMap.1 hline
    obtain ⟨blob, hblob, rfl⟩ := Option.map_eq_some_iff.1 found
    exact newline_not_mem_peerLine hT (h s hs blob hblob)
  rw [peerEntries, saveStargazers, String.toList_ofList, lines_flatMap pieces, peerLines,
    List.filterMap_map, List.filterMap_filterMap]
  apply List.filterMap_congr
  intro s _
  cases s.connectedBlob with
  | none => rfl
  | some blob => exact parsePeer_peerLine hT s.peerId blob.birth

theorem nodup_keys_filterMap {Row K V : Type*} {rows : List Row} {key : Row → K}
    (distinct : (rows.map key).Nodup) (value : Row → Option V) :
    ((rows.filterMap fun r => (value r).map fun v => (key r, v)).map Prod.fst).Nodup := by
  have keys : (rows.filterMap fun r => (value r).map fun v => (key r, v)).map Prod.fst =
      (rows.filter fun r => (value r).isSome).map key := by
    induction rows with
    | nil => rfl
    | cons r rows ih =>
      have rest := ih (List.nodup_cons.1 distinct).2
      cases hv : value r <;> simp [hv, rest]
  rw [keys]
  exact distinct.sublist (List.filter_sublist.map key)

/-- With every geohash on one line, a load finds the connected peers and no other. -/
theorem loadConnectedStargazers_save (hT : T.RoundTrips) (h : OnOneLine stargazers)
    (peerId : PeerId) :
    loadConnectedStargazers T (saveStargazers T stargazers) peerId =
      (connectedBlob? stargazers peerId).map fun blob => storedBlob blob.birth := by
  have distinct := nodup_keys_filterMap stargazers.nodup fun s =>
    s.connectedBlob.map fun blob => storedBlob blob.birth
  simp only [Option.map_map, Function.comp_def] at distinct
  rw [loadConnectedStargazers, peerEntries_save hT h]
  cases found : connectedBlob? stargazers peerId with
  | some blob =>
    obtain ⟨s, hs, rfl, hblob⟩ := connectedBlob?_eq_some.1 found
    exact collect_of_mem distinct (List.mem_filterMap.2 ⟨s, hs, by simp [hblob]⟩)
  | none =>
    cases loaded : collect _ peerId with
    | none => rfl
    | some blob =>
      obtain ⟨s, hs, entry⟩ := List.mem_filterMap.1 (mem_of_collect loaded)
      obtain ⟨blob', hblob, same⟩ := Option.map_eq_some_iff.1 entry
      have present := connectedBlob?_eq_some.2 ⟨s, hs, (Prod.mk.inj same).1, hblob⟩
      rw [found] at present
      cases present

/-- Whatever the file holds, a loaded peer has no relay key and a geohash without newlines. -/
theorem loaded_blob {content : String} {peerId : PeerId} {blob : ConsentBlob F}
    (h : (peerId, blob) ∈ peerEntries T content) :
    blob.relayPk = Vector.replicate 32 0 ∧ '\n' ∉ blob.birth.geohash.toList := by
  obtain ⟨line, hline, parsed⟩ := List.mem_filterMap.1 h
  simp only [parsePeer, Option.bind_eq_bind, Option.bind_eq_some_iff, Option.pure_def,
    Option.some.injEq, Prod.mk.injEq] at parsed
  obtain ⟨⟨idHex, rest⟩, hfirst, ⟨jdnText, geohash⟩, hsecond, jdn, -, id, -, -, rfl⟩ := parsed
  refine ⟨rfl, fun newline => newline_not_mem_lines hline ?_⟩
  have inner : rest = jdnText ++ '\t' :: geohash := splitOnce_eq_some hsecond
  have onLine : '\n' ∈ geohash := by simpa using newline
  rw [splitOnce_eq_some hfirst, inner]
  simp [onLine]

end Load

/-- The peers file keeps a stargazer map exactly when each connected peer has no relay
key and a geohash without a newline and without a carriage return at its end. -/
theorem peersFile_roundTrips_iff (hT : T.RoundTrips) (stargazers : StargazerMap F Channel) :
    RoundTrips T stargazers ↔
      ∀ s ∈ stargazers, ∀ blob, s.connectedBlob = some blob → Storable blob := by
  constructor
  · intro round s hs blob hblob
    have stored : ∀ s ∈ stargazers, ∀ blob, s.connectedBlob = some blob →
        ∃ loaded, loadConnectedStargazers T (saveStargazers T stargazers) s.peerId = some loaded ∧
          loaded.birth = blob.birth ∧ loaded.relayPk = blob.relayPk := by
      intro s hs blob hblob
      have same := round s.peerId
      rw [connectedBlob?_eq_some.2 ⟨s, hs, rfl, hblob⟩] at same
      obtain ⟨loaded, hloaded, fields⟩ := Option.map_eq_some_iff.1 same
      exact ⟨loaded, hloaded, (Prod.mk.inj fields).1, (Prod.mk.inj fields).2⟩
    have oneLine : OnOneLine stargazers := by
      intro s hs blob hblob
      obtain ⟨loaded, hloaded, birth, -⟩ := stored s hs blob hblob
      rw [← birth]
      exact (loaded_blob (mem_of_collect hloaded)).2
    obtain ⟨loaded, hloaded, birth, relay⟩ := stored s hs blob hblob
    have zero := (loaded_blob (mem_of_collect hloaded)).1
    refine ⟨relay ▸ zero, oneLine s hs blob hblob, ?_⟩
    rw [loadConnectedStargazers_save hT oneLine,
      connectedBlob?_eq_some.2 ⟨s, hs, rfl, hblob⟩] at hloaded
    obtain rfl := Option.some.inj hloaded
    have stripped := congrArg (fun b => b.geohash.toList) birth
    simpa [storedBlob, stripCr_eq_self] using stripped
  · intro storable peerId
    have oneLine : OnOneLine stargazers := fun s hs blob hblob => (storable s hs blob hblob).2.1
    rw [loadConnectedStargazers_save hT oneLine]
    cases found : connectedBlob? stargazers peerId with
    | none => rfl
    | some blob =>
      obtain ⟨s, hs, -, hblob⟩ := connectedBlob?_eq_some.1 found
      obtain ⟨relay, -, noCr⟩ := storable s hs blob hblob
      simp [storedBlob, stripCr_eq_self.2 noCr, relay]

/-! ## Pending peers -/

/-- The text `save_pending` writes. -/
def savePending (stargazers : StargazerMap F Channel) : String :=
  String.ofList ((stargazers.rows.filter Stargazer.seeking).flatMap fun s =>
    hexEncode s.peerId.toList ++ ['\n'])

/-- The peers that `load_pending` returns. -/
def loadPending (content : String) : List PeerId :=
  (lines content.toList).filterMap fun line => parsePeerId (trim line)

theorem loadPending_savePending (stargazers : StargazerMap F Channel) :
    loadPending (savePending stargazers) =
      (stargazers.rows.filter Stargazer.seeking).map Stargazer.peerId := by
  have read : ∀ s : Stargazer F Channel,
      parsePeerId (trim (stripCr (hexEncode s.peerId.toList))) = some s.peerId := by
    intro s
    rw [stripCr_hexEncode, trim_eq_self fun c => whiteSpace_hexEncode, parsePeerId_hexEncode]
  have oneLine : ∀ line ∈ (stargazers.rows.filter Stargazer.seeking).map
      (fun s => hexEncode s.peerId.toList), '\n' ∉ line := by
    intro line hline
    obtain ⟨s, -, rfl⟩ := List.mem_map.1 hline
    exact (not_mem_hexEncode _).2
  have pieces := lines_flatMap oneLine
  rw [List.flatMap_map] at pieces
  rw [loadPending, savePending, String.toList_ofList, pieces, List.map_map, List.filterMap_map,
    ← List.filterMap_eq_map]
  exact List.filterMap_congr fun s _ => read s

/-! ## Whole Julian days -/

/-- Floats without a fraction, shown in decimal. -/
def decimalText : FloatText ℕ where
  display := Nat.repr
  parse := String.toNat?

theorem decimalText_roundTrips : decimalText.RoundTrips where
  parse_display := Nat.toNat?_repr
  tab_not_mem n h := by
    have digit := Nat.isDigit_of_mem_toDigits (by decide) (by decide) (Nat.toList_repr ▸ h)
    exact absurd digit (by decide)
  newline_not_mem n h := by
    have digit := Nat.isDigit_of_mem_toDigits (by decide) (by decide) (Nat.toList_repr ▸ h)
    exact absurd digit (by decide)

/-- A map with one connected peer. -/
def onePeer (birth : ConsentBlob ℕ) : StargazerMap ℕ Unit where
  rows := [⟨Vector.replicate 32 7, 4, "gcp", [], .connected birth⟩]
  nodup := by simp

theorem connectedBlob?_onePeer (birth : ConsentBlob ℕ) :
    connectedBlob? (onePeer birth) (Vector.replicate 32 7) = some birth :=
  connectedBlob?_eq_some.2 ⟨_, List.mem_singleton.2 rfl, rfl, rfl⟩

/-- A plain geohash without a relay key is kept. -/
theorem peersFile_keeps_plain :
    RoundTrips decimalText (onePeer ⟨⟨2451545, "gcpvj"⟩, Vector.replicate 32 1,
      Vector.replicate 32 2, Vector.replicate 32 0⟩) := by
  apply (peersFile_roundTrips_iff decimalText_roundTrips _).2
  intro s hs blob hblob
  obtain rfl := List.mem_singleton.1 hs
  obtain rfl := Option.some.inj hblob
  exact ⟨rfl, by decide, by decide⟩

/-- The relay key of a connected peer is lost, and relayed messages are sealed to zero. -/
theorem peersFile_loses_relay_key :
    decimalText.RoundTrips ∧
      ¬ RoundTrips decimalText (onePeer ⟨⟨2451545, "gcpvj"⟩, Vector.replicate 32 1,
        Vector.replicate 32 2, Vector.replicate 32 9⟩) := by
  refine ⟨decimalText_roundTrips, fun round => ?_⟩
  have same := round (Vector.replicate 32 7)
  rw [connectedBlob?_onePeer] at same
  obtain ⟨loaded, hloaded, fields⟩ := Option.map_eq_some_iff.1 same
  have zero := (loaded_blob (mem_of_collect hloaded)).1
  rw [(Prod.mk.inj fields).2] at zero
  exact absurd zero (by decide)

end Zodia.App
