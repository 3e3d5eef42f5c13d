import Zodia.App.Consent
import Zodia.Core.ChartAspects
import Zodia.Lib.Positions
import Zodia.Lib.Traverse

/-!
# The rows of the peer list

The list of the sidebar in `app/src/peer_row.rs`, and the synchronisation of its rows with the
stargazers in `app/src/app.rs`. One scan of the rows takes the peers that have a row out of those
that should have one, and notes down which rows to update and which to remove. Updates are sent
while the positions are still those of the scan, removals go from behind, and the peers that are
left get new rows.

## Main definitions

* `PeerRow`, `makePeerRowInit` — a row, and the data of a stargazer for it.
* `syncPeersFactory` — the synchronisation.

## Main results

* `syncPeersFactory_eq` — every stargazer that is not merely discovered has one row with its data,
  and there are no others.
-/

namespace Zodia.App

open Lib Zodia.Core

/-! ## Rows -/

inductive PeerStatus where
  | active
  | away
  deriving DecidableEq

/-- Red, green, blue and alpha. -/
abbrev Rgba := ℚ × ℚ × ℚ × ℚ

structure PeerRowInit where
  peerId : PeerId
  solarMonth : UInt8
  displayName : String
  isConnected : Bool
  isPending : Bool
  sortBucket : ℕ
  dotFilled : Bool
  dotRgba : Rgba
  unread : ℕ
  nickname : String
  isMuted : Bool
  compatGlyph : Option String
  compatTooltip : Option String
  deriving DecidableEq

structure PeerRow where
  peerId : PeerId
  solarMonth : UInt8
  displayName : String
  isConnected : Bool
  isPending : Bool
  sortBucket : ℕ
  dotFilled : Bool
  dotRgba : Rgba
  unread : ℕ
  isMuted : Bool
  compatGlyph : Option String
  compatTooltip : Option String
  isConnectedCell : Bool
  nickname : String
  isMutedCell : Bool
  deriving DecidableEq

namespace PeerRow

def initModel (init : PeerRowInit) : PeerRow where
  isConnectedCell := init.isConnected
  nickname := init.nickname
  isMutedCell := init.isMuted
  peerId := init.peerId
  solarMonth := init.solarMonth
  displayName := init.displayName
  isConnected := init.isConnected
  isPending := init.isPending
  sortBucket := init.sortBucket
  dotFilled := init.dotFilled
  dotRgba := init.dotRgba
  unread := init.unread
  isMuted := init.isMuted
  compatGlyph := init.compatGlyph
  compatTooltip := init.compatTooltip

/-- The row after `PeerRowMsg::Update`, which carries everything but the peer. -/
def update (init : PeerRowInit) (row : PeerRow) : PeerRow :=
  { row with
    isConnectedCell := init.isConnected
    isMutedCell := init.isMuted
    nickname := init.nickname
    solarMonth := init.solarMonth
    displayName := init.displayName
    isConnected := init.isConnected
    isPending := init.isPending
    sortBucket := init.sortBucket
    dotFilled := init.dotFilled
    dotRgba := init.dotRgba
    unread := init.unread
    isMuted := init.isMuted
    compatGlyph := init.compatGlyph
    compatTooltip := init.compatTooltip }

/-- An update for the peer of the row makes it the row of its data. -/
theorem update_eq {init : PeerRowInit} {row : PeerRow} (same : init.peerId = row.peerId) :
    row.update init = initModel init := by
  rw [update, initModel, same]

end PeerRow

/-! ## The data of a row -/

/-- What the application holds for the rows. -/
structure SidebarModel (F Channel : Type) where
  stargazers : StargazerMap F Channel
  connectedChannels : ChannelMap Channel
  stargazerStatus : PeerId → Option PeerStatus
  stargazerNicknames : String → Option String
  stargazerDisplayNames : String → Option String
  unreadMessages : String → Option ℕ
  mutedPeers : PeerId → Bool
  /-- The positions of the user's chart. -/
  chart : Option PlanetPositions
  /-- The ephemeris, from a Julian day. -/
  computePositions : F → Option PlanetPositions

variable {F Channel : Type}

/-- Sort key used to order rows in the sidebar. -/
def Stargazer.sidebarSortKey (s : Stargazer F Channel) (hasChannel : Bool) : ℕ :=
  match s.state, hasChannel with
  | .connected _, true => 0
  | .incomingPending _, _ => 1
  | .outgoingPending, _ => 2
  | .connected _, false => 3
  | .discovered, _ => 4

/-- Whether the stargazer is more than merely discovered. -/
def Stargazer.listed (s : Stargazer F Channel) : Bool :=
  match s.state with
  | .discovered => false
  | _ => true

/-- The first four bytes of a peer, in upper-case hexadecimal. -/
def peerHex (peerId : PeerId) : String :=
  String.ofList ((hexEncode (peerId.toList.take 4)).map Char.toUpper)

namespace SidebarModel

variable (m : SidebarModel F Channel)

/-- The nickname, or the name that the peer has broadcast, or the tag. -/
def resolvedPeerName (hex : String) : String :=
  (((m.stargazerNicknames hex).or (m.stargazerDisplayNames hex)).filter fun n => n ≠ "").getD
    ("···" ++ hex)

/-- The dot of a row; there is none for a peer that is merely discovered. -/
def dot (state : StargazerState F Channel) (hasChannel : Bool) (status : Option PeerStatus) :
    Option (Bool × Rgba) :=
  match state with
  | .incomingPending _ => some (true, (0.95, 0.75, 0.30, 1))
  | .outgoingPending => some (false, (0.55, 0.55, 0.55, 0.55))
  | .connected _ =>
    match hasChannel, status with
    | _, some .active => some (true, (0.46, 0.82, 0.46, 1))
    | _, some .away => some (true, (0.95, 0.75, 0.30, 1))
    | true, none => some (true, (0.95, 0.75, 0.30, 1))
    | false, none => some (false, (0.55, 0.55, 0.55, 0.70))
  | .discovered => none

/-- The tone between the charts, for a peer that has sent its birth data. -/
def compatTone (state : StargazerState F Channel) : Option SynastryTone :=
  match state with
  | .connected birth =>
    m.chart.bind fun positions =>
      (m.computePositions birth.birth.jdn).map fun theirs =>
        synastryTone (computeSynastry positions theirs)
  | _ => none

/-- The data of a stargazer for its row, or a panic. -/
def makePeerRowInit (s : Stargazer F Channel) : Option PeerRowInit :=
  let hex := peerHex s.peerId
  let hasChannel := (m.connectedChannels.find? s.peerId).isSome
  let isConnected := s.connectedBlob.isSome
  let isPending :=
    match s.state with
    | .outgoingPending | .incomingPending _ => true
    | _ => false
  let compatTone := m.compatTone s.state
  (dot s.state hasChannel (m.stargazerStatus s.peerId)).map fun painted =>
    { peerId := s.peerId
      solarMonth := s.solarMonth
      displayName := if isConnected then m.resolvedPeerName hex else "···" ++ hex
      isConnected := isConnected
      isPending := isPending
      sortBucket := s.sidebarSortKey hasChannel
      dotFilled := painted.1
      dotRgba := painted.2
      unread := (m.unreadMessages hex).getD 0
      nickname := (m.stargazerNicknames hex).getD ""
      isMuted := m.mutedPeers s.peerId
      compatGlyph := compatTone.map SynastryTone.glyph
      compatTooltip := compatTone.map SynastryTone.label }

end SidebarModel

/-! ## The synchronisation -/

/-- The rows that should be, one for each peer. -/
abbrev DesiredRows := Table PeerRowInit.peerId

/-- What the scan of the rows has noted down, and what is left of the desired rows. -/
structure Scan where
  toUpdate : List (ℕ × PeerRowInit)
  toRemove : List ℕ
  desired : DesiredRows

/-- The scan of the rows from position `i` on. -/
def scanRows (i : ℕ) (desired : DesiredRows) : List PeerRow → Scan
  | [] => ⟨[], [], desired⟩
  | row :: rows =>
    match desired.find? row.peerId with
    | some init =>
      let rest := scanRows (i + 1) (desired.erase row.peerId) rows
      { rest with toUpdate := (i, init) :: rest.toUpdate }
    | none =>
      let rest := scanRows (i + 1) desired rows
      { rest with toRemove := i :: rest.toRemove }

namespace SidebarModel

variable (m : SidebarModel F Channel)

/-- The desired rows keyed by peer, or a panic. -/
def desiredRows : Option DesiredRows :=
  ((m.stargazers.rows.filter Stargazer.listed).mapM m.makePeerRowInit).map fun inits =>
    inits.foldl Table.upsert Table.empty

/-- The rows after the synchronisation, or a panic. `drain` gives the order in which a hash map
yields its entries. -/
def syncPeersFactory (drain : List PeerRowInit → List PeerRowInit) (rows : List PeerRow) :
    Option (List PeerRow) :=
  m.desiredRows.map fun desired =>
    let scan := scanRows 0 desired rows
    let updated := scan.toUpdate.foldl
      (fun rows update => rows.modify update.1 (PeerRow.update update.2)) rows
    let removed := scan.toRemove.reverse.foldl (fun rows i => rows.eraseIdx i) updated
    removed ++ (drain scan.desired.rows).map PeerRow.initModel

/-- The rows are those of the stargazers that are more than discovered: one for each, with its
current data. -/
def RowsCurrent (rows : List PeerRow) : Prop :=
  (rows.map some).Perm ((m.stargazers.rows.filter Stargazer.listed).map fun s =>
    (m.makePeerRowInit s).map PeerRow.initModel)

end SidebarModel

/-! ## The scan -/

/-- The desired rows of the peers that have no row. -/
def DesiredRows.without (desired : DesiredRows) (rows : List PeerRow) : DesiredRows :=
  desired.filter fun init => init.peerId ∉ rows.map PeerRow.peerId

theorem DesiredRows.without_cons (desired : DesiredRows) (row : PeerRow) (rows : List PeerRow) :
    desired.without (row :: rows) = DesiredRows.without (desired.erase row.peerId) rows := by
  simp only [without, Table.erase, Table.filter, Table.mk.injEq, List.filter_filter]
  refine List.filter_congr fun init _ => ?_
  simp [Bool.and_comm]

/-- The data that the desired rows have for the peer of a row. -/
def DesiredRows.forRow (desired : DesiredRows) (row : PeerRow) : Option PeerRowInit :=
  desired.find? row.peerId

/-- The scan notes down the rows of the desired peers and the others, and leaves the peers that
have no row. -/
theorem scanRows_eq {rows : List PeerRow} (nodup : (rows.map PeerRow.peerId).Nodup) (i : ℕ)
    (desired : DesiredRows) :
    scanRows i desired rows =
      ⟨hits desired.forRow i rows, misses desired.forRow i rows, desired.without rows⟩ := by
  induction rows generalizing i desired with
  | nil =>
    have all : desired.without [] = desired := Table.filter_eq_self (by simp)
    rw [scanRows, hits, misses, all]
  | cons row rows ih =>
    obtain ⟨fresh, nodup⟩ := List.nodup_cons.1 nodup
    have same : ∀ row' ∈ rows,
        DesiredRows.forRow (desired.erase row.peerId) row' = desired.forRow row' := by
      intro row' mem
      have ne : row.peerId ≠ row'.peerId := fun eq => fresh (eq ▸ List.mem_map_of_mem mem)
      rw [DesiredRows.forRow, Table.find?_erase, if_neg ne, DesiredRows.forRow]
    cases found : desired.forRow row with
    | some init =>
      rw [hits_cons_some found, misses_cons_some found, DesiredRows.without_cons,
        ← hits_congr same, ← misses_congr same]
      rw [DesiredRows.forRow] at found
      simp only [scanRows, found, ih nodup]
    | none =>
      have absent : desired.erase row.peerId = desired := by
        refine Table.filter_eq_self fun init mem => ?_
        simpa using Table.find?_eq_none.1 found init mem
      rw [hits_cons_none found, misses_cons_none found, DesiredRows.without_cons, absent]
      rw [DesiredRows.forRow] at found
      simp only [scanRows, found, ih nodup]

/-! ## The passes -/

/-- The rows of the desired peers, updated, are the rows of their data. -/
theorem updated_kept (desired : DesiredRows) (rows : List PeerRow) :
    (rows.filter fun row => (desired.forRow row).isSome).map
        (fun row => (desired.forRow row).elim row fun init => row.update init) =
      (rows.filterMap desired.forRow).map PeerRow.initModel := by
  induction rows with
  | nil => rfl
  | cons row rows ih =>
    cases found : desired.forRow row with
    | some init =>
      have same : init.peerId = row.peerId := (Table.find?_eq_some.1 found).2
      rw [List.filterMap_cons_some found, List.map_cons, ← ih, ← PeerRow.update_eq same]
      simp [found]
    | none =>
      rw [List.filterMap_cons_none found, ← ih]
      simp [found]

/-- The updates and the removals of a scan leave the rows of the desired peers that had one. -/
theorem scan_applied {rows : List PeerRow} (nodup : (rows.map PeerRow.peerId).Nodup)
    (desired : DesiredRows) :
    (scanRows 0 desired rows).toRemove.reverse.foldl (fun rows i => rows.eraseIdx i)
        ((scanRows 0 desired rows).toUpdate.foldl
          (fun rows update => rows.modify update.1 (PeerRow.update update.2)) rows) =
      (rows.filterMap desired.forRow).map PeerRow.initModel := by
  have written := foldl_modify_hits PeerRow.update (f := desired.forRow) [] rows
  have deleted := foldl_eraseIdx_misses (f := desired.forRow)
    (fun row => (desired.forRow row).elim row fun init => row.update init) [] rows
  simp only [List.length_nil, List.nil_append] at written deleted
  rw [scanRows_eq nodup, written, deleted, updated_kept]

/-- The rows that are kept and those that are new are the desired ones. -/
theorem kept_new_perm {rows : List PeerRow} (nodup : (rows.map PeerRow.peerId).Nodup)
    (desired : DesiredRows) :
    (rows.filterMap desired.forRow ++ (desired.without rows).rows).Perm desired.rows := by
  have kept : (rows.filterMap desired.forRow).Perm
      (desired.rows.filter fun init => init.peerId ∈ rows.map PeerRow.peerId) := by
    have peers : rows.filterMap desired.forRow =
        (rows.map PeerRow.peerId).filterMap desired.find? := List.filterMap_map.symm
    rw [peers]
    convert desired.filterMap_find?_perm nodup
  refine (kept.append_right _).trans ?_
  have split := List.filter_append_perm
    (fun init : PeerRowInit => decide (init.peerId ∈ rows.map PeerRow.peerId)) desired.rows
  simpa only [DesiredRows.without, Table.filter, decide_not] using split

/-! ## The data of the listed stargazers -/

namespace SidebarModel

variable (m : SidebarModel F Channel)

/-- A stargazer that is more than discovered has a row, under its own peer. -/
theorem exists_makePeerRowInit {s : Stargazer F Channel} (listed : s.listed = true) :
    ∃ init, m.makePeerRowInit s = some init ∧ init.peerId = s.peerId := by
  have painted : ∃ dot', dot s.state (m.connectedChannels.find? s.peerId).isSome
      (m.stargazerStatus s.peerId) = some dot' := by
    unfold Stargazer.listed at listed
    unfold dot
    cases state : s.state with
    | discovered => simp [state] at listed
    | incomingPending channel => exact ⟨_, rfl⟩
    | outgoingPending => exact ⟨_, rfl⟩
    | connected birth =>
      simp only
      split <;> exact ⟨_, rfl⟩
  obtain ⟨dot', painted⟩ := painted
  rw [makePeerRowInit, painted]
  exact ⟨_, rfl, rfl⟩

/-- The desired rows are the data of the stargazers that are more than discovered. -/
theorem exists_desiredRows :
    ∃ desired, m.desiredRows = some desired ∧
      desired.rows.map some =
        (m.stargazers.rows.filter Stargazer.listed).map m.makePeerRowInit := by
  have made : ∀ s ∈ m.stargazers.rows.filter Stargazer.listed,
      ∃ init, m.makePeerRowInit s = some init ∧ init.peerId = s.peerId :=
    fun s mem => m.exists_makePeerRowInit (List.mem_filter.1 mem).2
  obtain ⟨inits, all⟩ := exists_forall₂ made
  have data : inits.map some =
      (m.stargazers.rows.filter Stargazer.listed).map m.makePeerRowInit := by
    rw [← List.forall₂_eq_eq_eq, List.forall₂_map_left_iff, List.forall₂_map_right_iff]
    exact List.Forall₂.flip (all.imp fun _ _ found => found.1.symm)
  have peers : inits.map PeerRowInit.peerId =
      (m.stargazers.rows.filter Stargazer.listed).map Stargazer.peerId := by
    rw [← List.forall₂_eq_eq_eq, List.forall₂_map_left_iff, List.forall₂_map_right_iff]
    exact List.Forall₂.flip (all.imp fun _ _ found => found.2)
  have nodup : (inits.map PeerRowInit.peerId).Nodup := by
    rw [peers]
    exact m.stargazers.nodup.sublist (List.filter_sublist.map _)
  refine ⟨inits.foldl Table.upsert Table.empty, ?_, ?_⟩
  · rw [desiredRows, mapM_eq_some_iff.2 (all.imp fun _ _ => And.left), Option.map_some]
  · rw [Table.rows_foldl_upsert nodup, data]

/-- **Synchronisation.** With at most one row for a peer before, the rows afterwards are one for
each stargazer that is more than discovered, with its current data, and there are no others. -/
theorem syncPeersFactory_eq (drain : List PeerRowInit → List PeerRowInit)
    (order : ∀ inits, (drain inits).Perm inits) {rows : List PeerRow}
    (nodup : (rows.map PeerRow.peerId).Nodup) :
    ∃ rows', m.syncPeersFactory drain rows = some rows' ∧ m.RowsCurrent rows' := by
  obtain ⟨desired, wanted, data⟩ := m.exists_desiredRows
  refine ⟨_, by rw [syncPeersFactory, wanted, Option.map_some], ?_⟩
  have left : (scanRows 0 desired rows).desired = desired.without rows := by
    rw [scanRows_eq nodup]
  simp only [scan_applied nodup, left]
  have current : ((rows.filterMap desired.forRow).map PeerRow.initModel ++
      (drain (desired.without rows).rows).map PeerRow.initModel).Perm
      (desired.rows.map PeerRow.initModel) := by
    rw [← List.map_append]
    exact (((order _).append_left _).trans (kept_new_perm nodup desired)).map _
  have listed : (m.stargazers.rows.filter Stargazer.listed).map
      (fun s => (m.makePeerRowInit s).map PeerRow.initModel) =
      (desired.rows.map PeerRow.initModel).map some := by
    calc
      _ = ((m.stargazers.rows.filter Stargazer.listed).map m.makePeerRowInit).map
          (Option.map PeerRow.initModel) := by simp
      _ = (desired.rows.map some).map (Option.map PeerRow.initModel) := by rw [data]
      _ = _ := by simp
  rw [RowsCurrent, listed]
  exact current.map some

/-- The first peer is gone, the second has answered and the third is new. -/
def crowd : SidebarModel ℕ Unit where
  stargazers := ([(0, .discovered), (1, .incomingPending ()), (2, .outgoingPending)].map
    fun peer : UInt8 × StargazerState ℕ Unit =>
      { peerId := Vector.replicate 32 peer.1, solarMonth := 7, geohashPrefix := "u09",
        approximateAspects := [], state := peer.2 }).foldl Table.upsert Table.empty
  connectedChannels := Table.empty
  stargazerStatus _ := none
  stargazerNicknames _ := none
  stargazerDisplayNames _ := none
  unreadMessages _ := none
  mutedPeers _ := false
  chart := none
  computePositions _ := none

def crowdRows : List PeerRow :=
  [0, 1].map fun peer : UInt8 => PeerRow.initModel
    { peerId := Vector.replicate 32 peer, solarMonth := 7, displayName := "", isConnected := false,
      isPending := true, sortBucket := 2, dotFilled := false, dotRgba := (0, 0, 0, 1),
      unread := 0, nickname := "", isMuted := false, compatGlyph := none,
      compatTooltip := none }

theorem syncPeersFactory_eq_crowd :
    (crowdRows.map PeerRow.peerId).Nodup ∧
      ∃ rows', crowd.syncPeersFactory List.reverse crowdRows = some rows' ∧
        crowd.RowsCurrent rows' :=
  ⟨by decide, crowd.syncPeersFactory_eq List.reverse (fun _ => List.reverse_perm _) (by decide)⟩

end SidebarModel

end Zodia.App
