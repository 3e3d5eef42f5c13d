import Zodia.App.PeerMessages
import Zodia.Lib.Symbolic

/-!
# What is shown for a peer

The nickname, the name and the number of unread messages that are shown for a peer are looked
up under the first four bytes of its key. A message about another peer leaves them as they are
unless the two share these bytes, or unless it gives the other peer a nickname that continues
on a line which the next start reads as an entry of its own.

## Main definitions

* `Shown`, `PeerModel.shown` — what is shown for a peer.
* `About` — the messages about a peer.
* `PeerModel.KeepsShown` — a message changes nothing that is shown for a peer, now or after the
  next start.
* `KeepsApart` — the condition under which it does not.
-/

namespace Zodia.App

open Lib Crypto

/-! ## Shortened keys -/

theorem peerTag_inj {a b : PeerId} : peerTag a = peerTag b ↔ a.toList.take 4 = b.toList.take 4 := by
  constructor
  · intro h
    exact hexEncodeUpper_injective (String.ofList_injective h)
  · intro h
    rw [peerTag, peerTag, h]

/-- A shortened key is hexadecimal text. -/
theorem not_mem_peerTag (peerId : PeerId) {c : Char} (h : whiteSpace c = true) :
    c ∉ (peerTag peerId).toList := by
  intro hc
  rw [peerTag, String.toList_ofList] at hc
  rw [whiteSpace_hexEncodeUpper hc] at h
  cases h

/-! ## Maps of names -/

namespace NameMap

variable {m : NameMap} {tag : String}

theorem get_upsert (e : String × String) :
    NameMap.get (m.upsert e) tag = if e.1 = tag then some e.2 else m.get tag := by
  rw [get, Table.find?_upsert]
  split_ifs <;> rfl

theorem get_erase (tag' : String) :
    NameMap.get (m.erase tag') tag = if tag' = tag then none else m.get tag := by
  rw [get, Table.find?_erase]
  split_ifs <;> rfl

theorem get_eq_some {name : String} : m.get tag = some name ↔ (tag, name) ∈ m := by
  constructor
  · intro h
    obtain ⟨⟨tag', name'⟩, found, rfl⟩ := Option.map_eq_some_iff.1 h
    obtain ⟨hmem, rfl⟩ := Table.find?_eq_some.1 found
    exact hmem
  · intro h
    have found : m.find? tag = some (tag, name) := Table.find?_eq_some.2 ⟨h, rfl⟩
    rw [get, found]
    rfl

/-- A collected map is the map of its entries. -/
theorem get_ofEntries (entries : List (String × String)) :
    (ofEntries entries).get tag = collect entries tag := by
  induction entries using List.reverseRecOn with
  | nil => rfl
  | append_singleton entries e ih =>
    have last : ofEntries (entries ++ [e]) = (ofEntries entries).upsert e := by
      simp [ofEntries, List.foldl_append]
    rw [last, get_upsert, collect_append_singleton, ih]
    by_cases same : e.1 = tag
    · rw [if_pos same, ← same, Function.update_self]
    · rw [if_neg same, Function.update_of_ne (Ne.symm same)]

/-- The entries of one key, in whatever order the map yields them. -/
theorem filter_arrange (order : HashOrder) (m : NameMap) (tag : String) :
    (order.arrange m.rows).filter (fun e => e.1 = tag) = (m.find? tag).toList := by
  have perm := (order.perm m.rows).filter fun e => decide (e.1 = tag)
  rw [Table.filter_key] at perm
  cases h : m.find? tag with
  | none => exact (h ▸ perm).eq_nil
  | some e => exact (h ▸ perm).eq_singleton

end NameMap

/-! ## The nickname file -/

/-- The row of a nickname that the next start reads back for the key `tag`, and whose other
lines it does not read as entries for `tag`. -/
structure NickRow (tag : String) (e : String × String) : Prop where
  tab_not_mem : '\t' ∉ e.1.toList
  newline_not_mem : '\n' ∉ e.1.toList
  nonblank : trimName e.2 ≠ ""
  oneLine : e.1 = tag → firstLine e.2.toList = e.2.toList
  later : ∀ line ∈ laterLines e.2.toList, ∀ n, parseNickname line = some n → n.1 ≠ tag

/-- The lines of a row give the row and whatever its later lines say. -/
theorem parse_nicknameLine {e : String × String} (tab : '\t' ∉ e.1.toList)
    (newline : '\n' ∉ e.1.toList) :
    (lines (nicknameLine e ++ ['\n'])).filterMap parseNickname =
      (e.1, String.ofList (firstLine e.2.toList)) ::
        (laterLines e.2.toList).filterMap parseNickname := by
  have first : parseNickname (e.1.toList ++ '\t' :: firstLine e.2.toList) =
      some (e.1, String.ofList (firstLine e.2.toList)) := by
    rw [parseNickname, splitOnce_append tab, Option.map_some, String.ofList_toList]
  rw [nicknameLine, lines_terminated newline (by decide) (by decide),
    List.filterMap_cons_some first]

theorem NickRow.filter_lines {tag : String} {e : String × String} (h : NickRow tag e) :
    ((lines (nicknameLine e ++ ['\n'])).filterMap parseNickname).filter (fun n => n.1 = tag) =
      [e].filter fun n => n.1 = tag := by
  have none :
      ((laterLines e.2.toList).filterMap parseNickname).filter (fun n => n.1 = tag) = [] := by
    refine List.filter_eq_nil_iff.2 fun n hn => ?_
    obtain ⟨line, hl, parsed⟩ := List.mem_filterMap.1 hn
    simpa using h.later line hl n parsed
  rw [parse_nicknameLine h.tab_not_mem h.newline_not_mem]
  by_cases same : e.1 = tag
  · rw [h.oneLine same, String.ofList_toList, List.filter_cons_of_pos (by simpa using same), none,
      List.filter_cons_of_pos (by simpa using same), List.filter_nil]
  · rw [List.filter_cons_of_neg (by simpa using same), none,
      List.filter_cons_of_neg (by simpa using same), List.filter_nil]

/-- What is written for a shortened key is read back. -/
theorem get_loadNicknames {m : NameMap} {tag : String} (order : HashOrder)
    (h : ∀ e ∈ m, NickRow tag e) :
    (loadNicknames (saveNicknames order m)).get tag = m.get tag := by
  have rows : ∀ e ∈ order.arrange m.rows, NickRow tag e :=
    fun e he => h e ((order.perm m.rows).subset he)
  have all : (order.arrange m.rows).filter (fun e => trimName e.2 ≠ "") =
      order.arrange m.rows := by
    refine List.filter_eq_self.2 fun e he => ?_
    simpa using (rows e he).nonblank
  have pieces : lines (saveNicknames order m).toList =
      (order.arrange m.rows).flatMap fun e => lines (nicknameLine e ++ ['\n']) := by
    rw [saveNicknames, all, String.toList_ofList]
    have split := lines_flatMap_pieces ((order.arrange m.rows).map nicknameLine)
    simpa only [List.flatMap_map] using split
  have entries : ((lines (saveNicknames order m).toList).filterMap parseNickname).filter
      (fun n => n.1 = tag) = ((m.find? tag).toList).filter fun n => n.1 = tag := by
    rw [pieces, List.filterMap_flatMap, List.filter_flatMap,
      List.flatMap_congr fun e he => (rows e he).filter_lines, ← List.filter_flatMap,
      List.flatMap_singleton', ← NameMap.filter_arrange order, List.filter_filter]
    simp
  rw [loadNicknames, NameMap.get_ofEntries, collect_eq_of_filter entries, NameMap.get]
  cases found : m.find? tag with
  | none => rfl
  | some e =>
    obtain ⟨-, rfl⟩ := Table.find?_eq_some.1 found
    exact collect_of_mem (by simp) (List.mem_singleton.2 rfl)

/-! ## What is shown -/

/-- What is shown for a peer. -/
structure Shown where
  nickname : String
  name : String
  unread : ℕ
  hidden : Bool
  deriving DecidableEq

namespace PeerModel

variable {Secret Key : Type} (dv : RelayDevice Secret Key) (m : PeerModel)

def shown (peerId : PeerId) : Shown where
  nickname := (m.nicknames.get (peerTag peerId)).getD ""
  name := m.resolvedPeerName (peerTag peerId)
  unread := (m.unread (peerTag peerId)).getD 0
  hidden := m.isTestPeer peerId

/-- The message changes nothing that is shown for `a`, now or after the next start. -/
structure KeepsShown (a : PeerId) (e : PeerEvent Secret) : Prop where
  now : (m.step dv e).shown a = m.shown a
  next : ∀ connected, ((m.step dv e).restart connected).shown a = (m.restart connected).shown a

end PeerModel

/-- The message is about the peer `b`. -/
def About {Secret Key : Type} (dv : RelayDevice Secret Key) (b : PeerId) :
    PeerEvent Secret → Prop
  | .setNickname peerId _ _ => peerId = b
  | .displayNameSet by_ _ _ _ => by_ = b
  | .chatReceived sender _ _ _ => sender = b
  | .relayReceived _ dest payload _ _ _ =>
    dest = dv.nodeId ∧ ∃ rp, PeerModel.openRelay dv payload = some rp ∧ rp.sender = b
  | .openStargazer peerId _ => peerId = b
  | _ => False

/-- The first four bytes of the keys differ, and no further line of a nickname reads as an
entry for `a`. A broadcast name that is not written changes nothing. -/
def KeepsApart {Secret : Type} (a b : PeerId) : PeerEvent Secret → Prop
  | .setNickname _ name _ =>
    a.toList.take 4 ≠ b.toList.take 4 ∧
      ∀ line ∈ laterLines (trim name.toList), ∀ n, parseNickname line = some n → n.1 ≠ peerTag a
  | .displayNameSet _ _ _ stored => stored = true → a.toList.take 4 ≠ b.toList.take 4
  | _ => a.toList.take 4 ≠ b.toList.take 4

/-- A nickname that is given has one line. -/
def OneLine {Secret : Type} : PeerEvent Secret → Prop
  | .setNickname _ name _ => '\n' ∉ trim name.toList
  | _ => True

namespace PeerModel

variable {Secret Key : Type} {dv : RelayDevice Secret Key} {m m' : PeerModel} {a b : PeerId}

/-- What is shown is read under the shortened key. -/
theorem shown_congr (nickname : m'.nicknames.get (peerTag a) = m.nicknames.get (peerTag a))
    (displayName : m'.displayNames.get (peerTag a) = m.displayNames.get (peerTag a))
    (unread : m'.unread (peerTag a) = m.unread (peerTag a)) : m'.shown a = m.shown a := by
  simp only [shown, resolvedPeerName, isTestPeer, nickname, displayName, unread]

/-- The rows of the peers with a shortened key. -/
def onFile (t : DisplayNameTable) (tag : String) : List DisplayNameRow :=
  t.rows.filter fun r => peerTag r.peerPk = tag

theorem restart_shown_congr (connected : List PeerId)
    (nickname : (loadNicknames m'.nicknamesTsv).get (peerTag a) =
      (loadNicknames m.nicknamesTsv).get (peerTag a))
    (names : onFile m'.peerDisplayNames (peerTag a) = onFile m.peerDisplayNames (peerTag a)) :
    (m'.restart connected).shown a = (m.restart connected).shown a := by
  refine shown_congr nickname ?_ rfl
  simp only [restart, NameMap.get_ofEntries]
  refine collect_eq_of_filter ?_
  rw [List.filter_map, List.filter_map]
  exact congrArg _ names

/-- Only the unread count is read, and the next start forgets it. -/
theorem KeepsShown.of_unread {e : PeerEvent Secret}
    (nicknames : (m.step dv e).nicknames = m.nicknames)
    (displayNames : (m.step dv e).displayNames = m.displayNames)
    (unread : (m.step dv e).unread (peerTag a) = m.unread (peerTag a))
    (file : (m.step dv e).nicknamesTsv = m.nicknamesTsv)
    (table : (m.step dv e).peerDisplayNames = m.peerDisplayNames) : m.KeepsShown dv a e where
  now := shown_congr (by rw [nicknames]) (by rw [displayNames]) unread
  next connected := restart_shown_congr connected (by rw [file]) (by rw [table])

/-! ### What a handler leaves alone -/

section Fields

variable {name text : String} {order : HashOrder} {timestamp : UInt64} {source : ChatSource}
  {ts : ℕ} {stored : Bool}

@[simp] theorem setNickname_displayNames :
    (m.setNickname b name order).displayNames = m.displayNames := by simp only [setNickname]

@[simp] theorem setNickname_unread : (m.setNickname b name order).unread = m.unread := by
  simp only [setNickname]

@[simp] theorem setNickname_peerDisplayNames :
    (m.setNickname b name order).peerDisplayNames = m.peerDisplayNames := by simp only [setNickname]

@[simp] theorem displayNameSet_nicknames :
    (m.displayNameSet b name timestamp).nicknames = m.nicknames := by simp only [displayNameSet]

@[simp] theorem displayNameSet_unread :
    (m.displayNameSet b name timestamp).unread = m.unread := by simp only [displayNameSet]

@[simp] theorem displayNameSet_nicknamesTsv :
    (m.displayNameSet b name timestamp).nicknamesTsv = m.nicknamesTsv := by
  simp only [displayNameSet]

@[simp] theorem receive_nicknames :
    (m.receive b text source ts stored).nicknames = m.nicknames := by
  simp only [receive, addMessage, countUnread]

@[simp] theorem receive_displayNames :
    (m.receive b text source ts stored).displayNames = m.displayNames := by
  simp only [receive, addMessage, countUnread]

@[simp] theorem receive_nicknamesTsv :
    (m.receive b text source ts stored).nicknamesTsv = m.nicknamesTsv := by
  simp only [receive, addMessage, countUnread]

@[simp] theorem receive_peerDisplayNames :
    (m.receive b text source ts stored).peerDisplayNames = m.peerDisplayNames := by
  simp only [receive, addMessage, countUnread]

@[simp] theorem receive_unread : (m.receive b text source ts stored).unread =
    Function.update m.unread (peerTag b) (some ((m.unread (peerTag b)).getD 0 + 1)) := by
  simp only [receive, addMessage, countUnread]

end Fields

/-! ### Broadcast names -/

theorem onFile_setIfNewer {t : DisplayNameTable} {tag : String} (apart : peerTag b ≠ tag)
    (name : String) (updatedAt : UInt64) :
    onFile (t.setIfNewer b name updatedAt).1 tag = onFile t tag := by
  unfold DisplayNameTable.setIfNewer
  cases found : t.find? b with
  | none => exact t.filter_insertOrIgnore (by simpa using apart)
  | some row =>
    dsimp only
    split_ifs with newer
    · have keeps : ∀ r : DisplayNameRow,
          ({ r with name := name, updatedAt := updatedAt.toInt64 } : DisplayNameRow).peerPk =
            r.peerPk := fun _ => rfl
      refine t.filter_modify keeps fun r hr => ?_
      rw [hr]
      exact ⟨by simpa using apart, by simpa using apart⟩
    · rfl

end PeerModel

/-! ### Nicknames of one line -/

@[simp] theorem toList_trimName (name : String) : (trimName name).toList = trim name.toList := by
  rw [trimName, String.toList_ofList]

theorem trimName_trimName (name : String) : trimName (trimName name) = trimName name := by
  rw [trimName, toList_trimName, trim_trim, ← trimName]

/-- A nickname as it is kept when the user gives one line. -/
structure TidyName (e : String × String) : Prop where
  tagged : ∃ peerId, e.1 = peerTag peerId
  trimmed : trimName e.2 = e.2
  nonempty : e.2 ≠ ""
  oneLine : '\n' ∉ e.2.toList

theorem TidyName.row {e : String × String} (h : TidyName e) (tag : String) : NickRow tag e := by
  obtain ⟨peerId, tagged⟩ := h.tagged
  have whole : splitOnce '\n' e.2.toList = none := splitOnce_eq_none.2 h.oneLine
  refine ⟨?_, ?_, by rw [h.trimmed]; exact h.nonempty, fun _ => ?_, ?_⟩
  · rw [tagged]
    exact not_mem_peerTag peerId (by decide)
  · rw [tagged]
    exact not_mem_peerTag peerId (by decide)
  · rw [firstLine, whole]
    refine stripCr_eq_self.2 fun last => ?_
    rw [← h.trimmed, toList_trimName] at last
    have visible := getLast?_trim last
    revert visible
    decide
  · rw [laterLines, whole]
    exact fun line hl => absurd hl List.not_mem_nil

namespace PeerModel

variable {Secret Key : Type} {dv : RelayDevice Secret Key} {m m' : PeerModel} {a b : PeerId}

section SetNickname

variable {name : String} {order : HashOrder} {tag : String}

theorem mem_setNickname {e : String × String} (h : e ∈ (m.setNickname b name order).nicknames) :
    e ∈ m.nicknames ∨ trimName name ≠ "" ∧ e = (peerTag b, trimName name) := by
  unfold setNickname at h
  dsimp only at h
  split_ifs at h with blank
  · exact .inl (Table.mem_erase.1 h).1
  · rcases Table.mem_upsert.1 h with ⟨old, -⟩ | new
    · exact .inl old
    · exact .inr ⟨blank, new⟩

theorem get_setNickname (apart : peerTag b ≠ tag) :
    (m.setNickname b name order).nicknames.get tag = m.nicknames.get tag := by
  unfold setNickname
  dsimp only
  split_ifs
  · rw [NameMap.get_erase, if_neg apart]
  · rw [NameMap.get_upsert, if_neg apart]

theorem get_setNickname_self : (m.setNickname b name order).nicknames.get (peerTag b) =
    if trimName name = "" then none else some (trimName name) := by
  unfold setNickname
  dsimp only
  split_ifs
  · rw [NameMap.get_erase, if_pos rfl]
  · rw [NameMap.get_upsert, if_pos rfl]

theorem nicknamesTsv_setNickname : (m.setNickname b name order).nicknamesTsv =
    saveNicknames order (m.setNickname b name order).nicknames := rfl

/-- The next start reads the nickname of a key if every row lets it. -/
theorem load_setNickname (rows : ∀ e ∈ m.nicknames, NickRow tag e)
    (new : trimName name ≠ "" → NickRow tag (peerTag b, trimName name)) :
    (loadNicknames (m.setNickname b name order).nicknamesTsv).get tag =
      (m.setNickname b name order).nicknames.get tag := by
  rw [nicknamesTsv_setNickname]
  refine get_loadNicknames order fun e he => ?_
  rcases mem_setNickname he with old | ⟨named, rfl⟩
  · exact rows e old
  · exact new named

end SetNickname

/-- The nicknames have one line each, and the next start reads them back. -/
structure Tidy (m : PeerModel) : Prop where
  names : ∀ e ∈ m.nicknames, TidyName e
  saved : ∀ tag, (loadNicknames m.nicknamesTsv).get tag = m.nicknames.get tag

theorem Tidy.of_same (h : m.Tidy) (nicknames : m'.nicknames = m.nicknames)
    (file : m'.nicknamesTsv = m.nicknamesTsv) : m'.Tidy where
  names := by rw [nicknames]; exact h.names
  saved := by rw [nicknames, file]; exact h.saved

theorem tidy_fresh : fresh.Tidy where
  names e he := absurd he (Table.not_mem_empty e)
  saved _ := rfl

theorem Tidy.setNickname (h : m.Tidy) {name : String} (order : HashOrder)
    (oneLine : '\n' ∉ trim name.toList) : (m.setNickname b name order).Tidy := by
  have new : trimName name ≠ "" → TidyName (peerTag b, trimName name) := fun named =>
    ⟨⟨b, rfl⟩, trimName_trimName name, named, by rwa [toList_trimName]⟩
  refine ⟨fun e he => ?_, fun tag => ?_⟩
  · rcases mem_setNickname he with old | ⟨named, rfl⟩
    · exact h.names e old
    · exact new named
  · exact load_setNickname (fun e he => (h.names e he).row tag) fun named => (new named).row tag

theorem Tidy.restart (h : m.Tidy) (connected : List PeerId) : (m.restart connected).Tidy where
  names e he := by
    have read : (loadNicknames m.nicknamesTsv).get e.1 = some e.2 := NameMap.get_eq_some.2 he
    rw [h.saved] at read
    exact h.names e (NameMap.get_eq_some.1 read)
  saved _ := rfl

theorem Tidy.step (h : m.Tidy) {e : PeerEvent Secret} (oneLine : OneLine e) :
    (m.step dv e).Tidy := by
  cases e with
  | setNickname peerId name order => exact h.setNickname order oneLine
  | displayNameSet by_ name timestamp stored =>
    cases stored with
    | false => exact h
    | true => exact h.of_same displayNameSet_nicknames displayNameSet_nicknamesTsv
  | chatReceived sender text ts stored => exact h.of_same receive_nicknames receive_nicknamesTsv
  | relayReceived via dest payload ts stored delivered =>
    simp only [PeerModel.step, relayReceived]
    split_ifs
    · split
      · exact h.of_same receive_nicknames receive_nicknamesTsv
      · exact h
    · exact h.of_same rfl rfl
    · exact h
  | sendChat peerId text ts stored delivered =>
    simp only [PeerModel.step, sendChat]
    split_ifs
    · exact h.of_same rfl rfl
    · exact h
  | sendViaRelay relay dest relayPk text ek nonce ts stored delivered =>
    simp only [PeerModel.step, sendViaRelay]
    split
    · split
      · exact h
      · split <;> exact h.of_same rfl rfl
    · exact h
  | openStargazer peerId delivered =>
    simp only [PeerModel.step, openStargazer]
    split_ifs <;> exact h.of_same rfl rfl
  | channelOpened peerId => exact h.of_same rfl rfl
  | channelClosed peerId => exact h.of_same rfl rfl
  | pagePushed peerId =>
    simp only [PeerModel.step, pagePushed]
    split
    · exact h
    · exact h.of_same rfl rfl
  | chatAppended peerId =>
    simp only [PeerModel.step, chatAppended]
    split_ifs
    · split
      · exact h
      · exact h.of_same rfl rfl
    · exact h
  | payloadSealed maker payload => exact h.of_same rfl rfl
  | restart connected => exact h.restart connected

/-! ### A message about another peer -/

theorem KeepsShown.setNickname (h : m.Tidy) {name : String} {order : HashOrder}
    (apart : KeepsApart a b (.setNickname b name order : PeerEvent Secret)) :
    m.KeepsShown dv a (.setNickname b name order) := by
  have tags : peerTag b ≠ peerTag a := fun same => apart.1 (peerTag_inj.1 same).symm
  have kept : (m.setNickname b name order).nicknames.get (peerTag a) =
      m.nicknames.get (peerTag a) := get_setNickname tags
  refine ⟨shown_congr kept (by simp only [PeerModel.step, setNickname_displayNames])
    (by simp only [PeerModel.step, setNickname_unread]),
    fun connected => restart_shown_congr connected ?_
      (by simp only [PeerModel.step, setNickname_peerDisplayNames])⟩
  refine (load_setNickname (fun e he => (h.names e he).row _) fun named => ?_).trans
    (kept.trans (h.saved _).symm)
  -- the row of `b` is not a row of `a`, and none of its further lines is
  refine ⟨not_mem_peerTag b (by decide), not_mem_peerTag b (by decide), ?_,
    fun same => absurd same tags, ?_⟩
  · rw [trimName_trimName]
    exact named
  · rw [toList_trimName]
    exact apart.2

/-- A message of a peer with another shortened key. -/
theorem KeepsShown.of_receive (tags : peerTag a ≠ peerTag b) {e : PeerEvent Secret} {text : String}
    {source : ChatSource} {ts : ℕ} {stored : Bool}
    (received : m.step dv e = m.receive b text source ts stored) : m.KeepsShown dv a e := by
  refine .of_unread ?_ ?_ ?_ ?_ ?_ <;> rw [received]
  · exact receive_nicknames
  · exact receive_displayNames
  · rw [receive_unread, Function.update_of_ne tags]
  · exact receive_nicknamesTsv
  · exact receive_peerDisplayNames

theorem KeepsShown.of_apart (h : m.Tidy) {e : PeerEvent Secret} (about : About dv b e)
    (apart : KeepsApart a b e) : m.KeepsShown dv a e := by
  cases e with
  | setNickname peerId name order =>
    obtain rfl : peerId = b := about
    exact .setNickname h apart
  | displayNameSet by_ name timestamp stored =>
    obtain rfl : by_ = b := about
    cases stored with
    | false => exact .of_unread rfl rfl rfl rfl rfl
    | true =>
      have tags : peerTag by_ ≠ peerTag a := fun same => apart rfl (peerTag_inj.1 same).symm
      refine ⟨shown_congr rfl ?_ rfl, fun connected => restart_shown_congr connected rfl ?_⟩
      · simp only [PeerModel.step, displayNameSet, if_true]
        split_ifs
        · rw [NameMap.get_upsert, if_neg tags]
        · rfl
      · exact onFile_setIfNewer tags name timestamp
  | chatReceived sender text ts stored =>
    obtain rfl : sender = b := about
    have tags : peerTag a ≠ peerTag sender := fun same => apart (peerTag_inj.1 same)
    exact .of_receive tags rfl
  | relayReceived via dest payload ts stored delivered =>
    obtain ⟨rfl, rp, opened, rfl⟩ := about
    have tags : peerTag a ≠ peerTag rp.sender := fun same => apart (peerTag_inj.1 same)
    have received : m.step dv (.relayReceived via dv.nodeId payload ts stored delivered) =
        m.receive rp.sender rp.text (.relay payload) ts stored := by
      simp [PeerModel.step, relayReceived, opened]
    exact .of_receive tags received
  | openStargazer peerId delivered =>
    obtain rfl : peerId = b := about
    have tags : peerTag a ≠ peerTag peerId := fun same => apart (peerTag_inj.1 same)
    refine .of_unread ?_ ?_ ?_ ?_ ?_ <;> simp only [PeerModel.step, openStargazer] <;> split_ifs
    all_goals first | rfl | exact Function.update_of_ne tags ..
  | _ => exact about.elim

/-! ### Peers that share their first four bytes -/

/-- The name that is found under a shortened key, unless it is empty. -/
def orFallback (tag name : String) : String := if name = "" then "···" ++ tag else name

theorem fallback_ne (tag : String) : "···" ++ tag ≠ "x" := by
  intro same
  have chars := congrArg String.toList same
  simp at chars

theorem orFallback_ne (tag name : String) : orFallback tag name ≠ name ++ "x" := by
  unfold orFallback
  split_ifs with empty
  · rw [empty]
    exact fallback_ne tag
  · intro same
    have chars := congrArg (fun s => s.toList.length) same
    simp at chars

theorem resolvedPeerName_nickname {tag name : String} (h : m.nicknames.get tag = some name) :
    m.resolvedPeerName tag = orFallback tag name := by
  rw [resolvedPeerName, h, orFallback]
  by_cases empty : name = "" <;> simp [Option.filter, empty]

theorem resolvedPeerName_displayName {tag name : String} (none : m.nicknames.get tag = none)
    (h : m.displayNames.get tag = some name) : m.resolvedPeerName tag = orFallback tag name := by
  rw [resolvedPeerName, none, h, orFallback]
  by_cases empty : name = "" <;> simp [Option.filter, empty]

/-- The first broadcast name of a peer is written. -/
theorem displayNameSet_new {name : String} {timestamp : UInt64}
    (free : m.peerDisplayNames.find? b = none) :
    (m.displayNameSet b name timestamp).displayNames.get (peerTag b) = some name ∧
      (m.displayNameSet b name timestamp).peerDisplayNames.rows =
        m.peerDisplayNames.rows ++ [⟨b, name, timestamp.toInt64⟩] := by
  have rows := Table.rows_insertOrIgnore (r := (⟨b, name, timestamp.toInt64⟩ : DisplayNameRow))
    (Table.find?_eq_none.1 free)
  simp only [displayNameSet, DisplayNameTable.setIfNewer, free, if_true]
  exact ⟨by rw [NameMap.get_upsert, if_pos rfl], rows⟩

/-- A run that gives `a` the broadcast name `name`, and nothing else. -/
def named (a : PeerId) (name : String) : List (PeerEvent Secret) := [.displayNameSet a name 0 true]

theorem shown_named (a : PeerId) (name : String) :
    (exec (PeerModel.step dv) .fresh (named a name)).shown a =
      ⟨"", orFallback (peerTag a) name, 0,
        (exec (PeerModel.step dv) .fresh (named a name)).isTestPeer a⟩ := by
  have found : (fresh.displayNameSet a name 0).displayNames.get (peerTag a) = some name :=
    (displayNameSet_new rfl).1
  have name : (exec (PeerModel.step dv) .fresh (named a name)).resolvedPeerName (peerTag a) =
      orFallback (peerTag a) name := resolvedPeerName_displayName rfl found
  rw [shown, name]
  rfl

theorem clean_named (a : PeerId) (name : String) :
    ∀ e ∈ (named a name : List (PeerEvent Secret)), OneLine e := by
  simp [named, OneLine]

/-- The file of a single nickname. -/
theorem saveNicknames_singleton {order : HashOrder} {nicknames : NameMap} {e : String × String}
    (rows : nicknames.rows = [e]) (named : trimName e.2 ≠ "") :
    saveNicknames order nicknames = String.ofList (nicknameLine e ++ ['\n']) := by
  have only : order.arrange nicknames.rows = [e] := by
    have perm := order.perm nicknames.rows
    rw [rows] at perm ⊢
    exact List.perm_singleton.1 perm
  have kept : [e].filter (fun e => trimName e.2 ≠ "") = [e] := by simpa using named
  rw [saveNicknames, only, kept, List.flatMap_singleton]

/-- A further line of a nickname that reads as an entry for a key gives it a nickname. -/
theorem load_injected {order : HashOrder} {name : String} {tag : String}
    (empty : m.nicknames = Table.empty) {line : List Char}
    (hl : line ∈ laterLines (trim name.toList)) {n : String × String}
    (parsed : parseNickname line = some n) (reads : n.1 = tag) :
    ∃ w, (loadNicknames (m.setNickname b name order).nicknamesTsv).get tag = some w := by
  have nonblank : trimName name ≠ "" := by
    intro blank
    rw [← toList_trimName, blank] at hl
    simp [laterLines, splitOnce] at hl
  have rows : (m.setNickname b name order).nicknames.rows = [(peerTag b, trimName name)] := by
    simp [setNickname, nonblank, empty, Table.upsert, Table.empty]
  have content : (m.setNickname b name order).nicknamesTsv =
      String.ofList (nicknameLine (peerTag b, trimName name) ++ ['\n']) :=
    saveNicknames_singleton rows (by rwa [trimName_trimName])
  have entries := parse_nicknameLine (e := (peerTag b, trimName name))
    (not_mem_peerTag b (by decide)) (not_mem_peerTag b (by decide))
  rw [content, loadNicknames, NameMap.get_ofEntries, String.toList_ofList, entries, ← reads,
    toList_trimName]
  exact Option.isSome_iff_exists.1
    (collect_isSome (List.mem_cons_of_mem _ (List.mem_filterMap.2 ⟨line, hl, parsed⟩)))

variable (dv) in
/-- After the next start `a` still goes by its broadcast name. -/
theorem restart_named (a : PeerId) (connected : List PeerId) :
    let m := (exec (PeerModel.step dv) .fresh (named a "x")).restart connected
    m.nicknames.get (peerTag a) = none ∧ m.displayNames.get (peerTag a) = some "x" := by
  have rows : (fresh.displayNameSet a "x" 0).peerDisplayNames.rows =
      fresh.peerDisplayNames.rows ++ [⟨a, "x", (0 : UInt64).toInt64⟩] :=
    (displayNameSet_new rfl).2
  refine ⟨rfl, ?_⟩
  change (NameMap.ofEntries ((fresh.displayNameSet a "x" 0).peerDisplayNames.rows.map _)).get _ = _
  rw [rows, NameMap.get_ofEntries]
  exact collect_of_mem (by simp [fresh, Table.empty]) (by simp [fresh, Table.empty])

section Converse

variable {e : PeerEvent Secret}
  (keeps : ∀ es, (∀ e ∈ es, OneLine e) → (exec (PeerModel.step dv) .fresh es).KeepsShown dv a e)

include keeps

theorem apart_of_setNickname {name : String} {order : HashOrder}
    (he : e = .setNickname b name order) : KeepsApart a b e := by
  subst he
  refine ⟨fun same => ?_, fun line hl n parsed reads => ?_⟩
  · have tags := peerTag_inj.2 same
    by_cases blank : trimName name = ""
    · -- a blank name takes away the nickname of `a`
      have clean : ∀ e ∈ [(.setNickname a "x" order : PeerEvent Secret)], OneLine e := by
        simp only [List.mem_singleton, forall_eq, OneLine]
        decide
      have kept := congrArg Shown.nickname (keeps _ clean).now
      have before : (fresh.setNickname a "x" order).nicknames.get (peerTag a) = some "x" :=
        get_setNickname_self
      have after : ((fresh.setNickname a "x" order).setNickname b name order).nicknames.get
          (peerTag a) = none := by
        rw [tags, get_setNickname_self, if_pos blank]
      simp only [exec_cons, exec_nil, PeerModel.step, shown, before, after] at kept
      simp at kept
    · -- a name is shown for `a`, which had none
      have kept := congrArg Shown.nickname (keeps [] (by simp)).now
      have after : (fresh.setNickname b name order).nicknames.get (peerTag a) =
          some (trimName name) := by
        rw [tags, get_setNickname_self, if_neg blank]
      simp only [exec_nil, PeerModel.step, shown, after] at kept
      exact blank kept
  · -- the line takes the place of the broadcast name of `a`
    have kept := (keeps _ (clean_named a "x")).next []
    obtain ⟨before, onFile⟩ := restart_named dv a []
    obtain ⟨w, loaded⟩ : ∃ w, (loadNicknames ((exec (PeerModel.step dv) .fresh
        (named a "x")).setNickname b name order).nicknamesTsv).get (peerTag a) = some w :=
      load_injected rfl hl parsed reads
    generalize exec (PeerModel.step dv) fresh (named a "x") = m at kept before onFile loaded
    have after : ((m.step dv (.setNickname b name order)).restart []).nicknames.get (peerTag a) =
        some w := loaded
    have nickname := congrArg Shown.nickname kept
    have name := congrArg Shown.name kept
    simp only [shown, before, after, resolvedPeerName_nickname after,
      resolvedPeerName_displayName before onFile] at nickname name
    obtain rfl : w = "" := nickname
    exact fallback_ne (peerTag a) name

theorem apart_of_displayNameSet (differ : a ≠ b) {name : String} {timestamp : UInt64}
    (he : e = .displayNameSet b name timestamp true) : a.toList.take 4 ≠ b.toList.take 4 := by
  subst he
  intro same
  have tags := peerTag_inj.2 same
  -- `a` goes by another name first
  have kept := congrArg Shown.name (keeps _ (clean_named a (name ++ "x"))).now
  rw [shown_named] at kept
  have none : (exec (PeerModel.step dv) fresh (named a (name ++ "x"))).nicknames.get
      (peerTag a) = none := rfl
  have rows : (exec (PeerModel.step dv) fresh (named a (name ++ "x"))).peerDisplayNames.rows =
      fresh.peerDisplayNames.rows ++ [⟨a, name ++ "x", (0 : UInt64).toInt64⟩] :=
    (displayNameSet_new (m := fresh) rfl).2
  generalize exec (PeerModel.step dv) fresh (named a (name ++ "x")) = m at kept none rows
  have free : m.peerDisplayNames.find? b = Option.none := by
    refine Table.find?_eq_none.2 fun r hr => ?_
    rw [← Table.mem_rows, rows] at hr
    rw [List.mem_singleton.1 hr]
    exact differ
  have found : (m.displayNameSet b name timestamp).displayNames.get (peerTag b) = some name :=
    (displayNameSet_new free).1
  rw [← tags] at found
  have after : (m.step dv (.displayNameSet b name timestamp true)).resolvedPeerName (peerTag a) =
      orFallback (peerTag a) name := resolvedPeerName_displayName none found
  have full : orFallback (peerTag a) (name ++ "x") = name ++ "x" := by
    refine if_neg fun empty => ?_
    have chars := congrArg String.toList empty
    simp at chars
  simp only [shown, after, full] at kept
  exact orFallback_ne _ _ kept

/-- A message that counts a message of `b` as unread. -/
theorem apart_of_unread (counted : ∀ m : PeerModel, (m.step dv e).unread (peerTag b) =
    some ((m.unread (peerTag b)).getD 0 + 1)) : a.toList.take 4 ≠ b.toList.take 4 := by
  intro same
  have kept := congrArg Shown.unread (keeps [] (by simp)).now
  simp only [shown, peerTag_inj.2 same, counted] at kept
  simp at kept

theorem apart_of_openStargazer {delivered : Bool} (he : e = .openStargazer b delivered) :
    a.toList.take 4 ≠ b.toList.take 4 := by
  subst he
  intro same
  have tags := peerTag_inj.2 same
  have kept := congrArg Shown.unread (keeps [.chatReceived a "" 0 false] (by simp [OneLine])).now
  have read : ∀ m : PeerModel, (m.step dv (.openStargazer b delivered)).unread (peerTag b) =
      none := by
    intro m
    simp only [PeerModel.step, openStargazer]
    split_ifs <;> exact Function.update_self ..
  simp only [shown, tags, read] at kept
  simp [tags, exec_cons, exec_nil, PeerModel.step, receive, addMessage, countUnread] at kept

end Converse

end PeerModel

/-- A message about one of two peers changes nothing that is shown for the other, in any session
whose nicknames have one line and after the next start, exactly if the first four bytes of the
two keys differ and it gives no nickname with a further line that reads as an entry of the
other. -/
theorem keeps_shown_iff {Secret Key : Type} (dv : RelayDevice Secret Key) {a b : PeerId}
    (differ : a ≠ b) {e : PeerEvent Secret} (about : About dv b e) :
    (∀ es, (∀ e ∈ es, OneLine e) →
      (exec (PeerModel.step dv) .fresh es).KeepsShown dv a e) ↔ KeepsApart a b e := by
  constructor
  · intro keeps
    cases e with
    | setNickname peerId name order =>
      obtain rfl : peerId = b := about
      exact PeerModel.apart_of_setNickname keeps rfl
    | displayNameSet by_ name timestamp stored =>
      obtain rfl : by_ = b := about
      rintro rfl
      exact PeerModel.apart_of_displayNameSet keeps differ rfl
    | chatReceived sender text ts stored =>
      obtain rfl : sender = b := about
      exact PeerModel.apart_of_unread keeps fun m => Function.update_self ..
    | relayReceived via dest payload ts stored delivered =>
      obtain ⟨rfl, rp, opened, rfl⟩ := about
      refine PeerModel.apart_of_unread keeps fun m => ?_
      simp only [PeerModel.step, PeerModel.relayReceived, if_true, opened]
      exact Function.update_self ..
    | openStargazer peerId delivered =>
      obtain rfl : peerId = b := about
      exact PeerModel.apart_of_openStargazer keeps rfl
    | _ => exact about.elim
  · intro apart es clean
    have tidy : (exec (PeerModel.step dv) .fresh es).Tidy :=
      exec_invariant (fun m e h oneLine => h.step oneLine) PeerModel.tidy_fresh
        (Along.of_forall clean _)
    exact .of_apart tidy about apart

/-! ### Two keys with the same first four bytes -/

section Lookalike

private def keeper : RelayDevice UInt8 Bytes :=
  ⟨byteDh, symbolicKdf, symbolicAead _, 5, Vector.replicate 32 1⟩

private def victim : PeerId := Vector.replicate 32 7

private def stranger : PeerId := Vector.replicate 32 9

/-- A key that was made to start like the key of the victim. -/
private def lookalike : PeerId := (Vector.replicate 32 7).set 31 9

/-- A message of a stranger is not counted for the victim. -/
theorem stranger_keeps_shown :
    (exec (PeerModel.step keeper) .fresh []).KeepsShown keeper victim
      (.chatReceived stranger "hi" 0 true) := by
  have differ : victim ≠ stranger := by decide
  have about : About keeper stranger (.chatReceived stranger "hi" 0 true) := rfl
  have apart : victim.toList.take 4 ≠ stranger.toList.take 4 := by decide
  exact (keeps_shown_iff keeper differ about).2 apart [] (by simp)

/-- A message of the lookalike is. -/
theorem lookalike_changes_shown :
    ¬ ∀ a b, a ≠ b → ∀ e, About keeper b e → ∀ es,
      (exec (PeerModel.step keeper) .fresh es).KeepsShown keeper a e := by
  intro kept
  have unread := congrArg Shown.unread
    (kept victim lookalike (by decide) (.chatReceived lookalike "hi" 0 true) rfl []).now
  have tags : peerTag victim = peerTag lookalike := peerTag_inj.2 (by decide)
  have counted : (PeerModel.fresh.step keeper (.chatReceived lookalike "hi" 0 true)).unread
      (peerTag lookalike) = some 1 := by
    simp [PeerModel.step, PeerModel.receive, PeerModel.addMessage, PeerModel.countUnread,
      PeerModel.fresh]
  simp only [exec_nil, PeerModel.shown, tags, counted] at unread
  cases unread

end Lookalike

end Zodia.App
