import Zodia.App.Stargazers
import Zodia.Crypto.Ecies
import Zodia.Lib.Run
import Zodia.Lib.Text
import Zodia.Ops.Cbor

/-!
# Peer names and chats

What the application keeps about single peers: the nickname the user gave, the name a peer
broadcasts, the number of unread messages, and the chat. The chat and the broadcast names are
kept under the whole key of a peer; the nicknames, the names that are shown, the unread counts
and the pages of the chats are kept under its first four bytes in hexadecimal.

A chat message arrives on a direct channel, whose transport authenticates the peer, or inside a
relay payload, which names its sender. The model notes for every message where it came from, and
for every payload who made it; the program keeps neither.

## Main definitions

* `peerTag` — the shortened key.
* `PeerModel`, `PeerModel.step` — the maps with the store and the nickname file, and a run.
* `PeerModel.resolvedPeerName` — the name that is shown for a shortened key.
-/

namespace Zodia.App

open Lib Crypto Ops

/-! ## Shortened keys -/

/-- The first four bytes of a key in hexadecimal. -/
def peerTag (peerId : PeerId) : String := String.ofList (hexEncodeUpper (peerId.toList.take 4))

/-! ## Maps of names -/

/-- A hash map from shortened keys to names, in the order it was filled. -/
abbrev NameMap := Table fun e : String × String => e.1

/-- The order in which a hash map yields its entries. -/
structure HashOrder where
  arrange : List (String × String) → List (String × String)
  perm : ∀ entries, (arrange entries).Perm entries

def NameMap.get (m : NameMap) (tag : String) : Option String := (m.find? tag).map Prod.snd

/-- Collect entries into a map; a later one replaces an earlier one. -/
def NameMap.ofEntries (entries : List (String × String)) : NameMap :=
  entries.foldl (fun m e => m.upsert e) Table.empty

def trimName (name : String) : String := String.ofList (trim name.toList)

/-- The line of a nickname, without its newline. -/
def nicknameLine (e : String × String) : List Char := e.1.toList ++ '\t' :: e.2.toList

/-- The text of `nicknames.tsv`; a blank name has no line. -/
def saveNicknames (order : HashOrder) (nicknames : NameMap) : String :=
  String.ofList (((order.arrange nicknames.rows).filter fun e => trimName e.2 ≠ "").flatMap
    fun e => nicknameLine e ++ ['\n'])

/-- A line without a tab is skipped. -/
def parseNickname (line : List Char) : Option (String × String) :=
  (splitOnce '\t' line).map fun parts => (String.ofList parts.1, String.ofList parts.2)

def loadNicknames (content : String) : NameMap :=
  .ofEntries ((lines content.toList).filterMap parseNickname)

/-! ## Broadcast names -/

/-- A row of `peer_display_names`. -/
structure DisplayNameRow where
  peerPk : PeerId
  name : String
  updatedAt : Int64

abbrev DisplayNameTable := Table fun r : DisplayNameRow => r.peerPk

/-- Write the name of a peer unless the name on file is as new, and tell whether it was written.
The store compares times as signed numbers. -/
def DisplayNameTable.setIfNewer (t : DisplayNameTable) (peerPk : PeerId) (name : String)
    (updatedAt : UInt64) : DisplayNameTable × Bool :=
  match t.find? peerPk with
  | none => (t.insertOrIgnore ⟨peerPk, name, updatedAt.toInt64⟩, true)
  | some row =>
    if row.updatedAt < updatedAt.toInt64 then
      (t.modify peerPk (fun r => { r with name := name, updatedAt := updatedAt.toInt64 })
        fun _ => rfl, true)
    else (t, false)

/-! ## Chats -/

/-- The inner message of a relay payload. -/
structure RelayPayload where
  sender : PeerId
  text : String
  deriving DecidableEq

def RelayPayload.toValue (rp : RelayPayload) : Value :=
  .record [("from", byteArray32.toValue rp.sender), ("text", FieldCodec.string.toValue rp.text)]

def RelayPayload.ofValue (v : Value) : Except DecodeError RelayPayload :=
  match v.fields? with
  | none => .error (.invalidType "RelayPayload")
  | some fields => do
    return ⟨← getField byteArray32 "from" fields, ← getField .string "text" fields⟩

def RelayPayload.encode (rp : RelayPayload) : Bytes := rp.toValue.write
def RelayPayload.decode (bytes : Bytes) : Except DecodeError RelayPayload :=
  fromReader RelayPayload.ofValue bytes

theorem RelayPayload.decode_encode (rp : RelayPayload) :
    RelayPayload.decode rp.encode = .ok rp := by
  have fields : ∀ f ∈ [("from", byteArray32.toValue rp.sender),
      ("text", FieldCodec.string.toValue rp.text)], f.2.depth ≤ 2 := by
    have sender := byteArray32.depth_toValue rp.sender
    have text := FieldCodec.string.depth_toValue rp.text
    simp only [List.mem_cons, List.not_mem_nil, or_false, forall_eq_or_imp, forall_eq]
    omega
  have shallow : rp.toValue.depth ≤ recursionLimit := by
    have inside := Value.depthEntries_record (by decide) fields
    simp only [RelayPayload.toValue, Value.record, Value.depth]
    exact (Nat.add_le_add_left inside 1).trans (by decide)
  refine (fromReader_write shallow).trans ?_
  simp [RelayPayload.ofValue, RelayPayload.toValue, getField, getField?,
    FieldCodec.ofValue_toValue]

/-- What arrived: something of the user's own, a message on the channel of a peer, or a relay
payload. -/
inductive ChatSource where
  | own
  | channel (peerId : PeerId)
  | relay (payload : Bytes)
  deriving DecidableEq

structure ChatLine where
  fromUs : Bool
  text : String
  source : ChatSource
  deriving DecidableEq

/-- A row of `messages`; the rows are in the order of their ids. -/
structure MessageRow where
  peerId : PeerId
  line : ChatLine
  ts : ℕ

/-- All messages for a peer, oldest first. -/
def messagesForPeer (rows : List MessageRow) (peerId : PeerId) : List ChatLine :=
  ((rows.filter fun r => r.peerId = peerId).mergeSort fun r r' => r.ts ≤ r'.ts).map MessageRow.line

/-- The page of a peer: the peer it was built for, and the lines of its list. -/
structure ChatPage where
  owner : PeerId
  lines : List ChatLine

inductive ChannelMsg where
  | chatMsg (text : String)
  | chatRead
  | relayMsg (dest : PeerId) (payload : Bytes)
  deriving DecidableEq

/-! ## The model -/

/-- The cryptography of a device and its keys. -/
structure RelayDevice (Secret Key : Type) where
  dh : DiffieHellman Secret
  kdf : Kdf Key
  aead : Aead Key Crypto.Nonce
  relaySk : Secret
  nodeId : PeerId

structure PeerModel where
  nicknames : NameMap
  displayNames : NameMap
  unread : String → Option ℕ
  chatLogs : PeerId → List ChatLine
  pages : String → Option ChatPage
  chatShown : String → ℕ
  channels : List PeerId
  sent : List (PeerId × ChannelMsg)
  messages : List MessageRow
  peerDisplayNames : DisplayNameTable
  nicknamesTsv : String
  /-- Who made a payload. -/
  sealed : Table fun s : Bytes × PeerId => s.1

/-- A message to the application, an event of the network, one round of the loops of
`update_view`, or something that happens outside of the program. `stored` tells whether the
store kept the message, `delivered` whether the channel took it. -/
inductive PeerEvent (Secret : Type) where
  | setNickname (peerId : PeerId) (name : String) (order : HashOrder)
  | displayNameSet (by_ : PeerId) (name : String) (timestamp : UInt64) (stored : Bool)
  | chatReceived (sender : PeerId) (text : String) (ts : ℕ) (stored : Bool)
  | relayReceived (via dest : PeerId) (payload : Bytes) (ts : ℕ) (stored delivered : Bool)
  | sendChat (peerId : PeerId) (text : String) (ts : ℕ) (stored delivered : Bool)
  | sendViaRelay (relay dest : PeerId) (relayPk : Bytes32) (text : String) (ek : Secret)
      (nonce : Crypto.Nonce) (ts : ℕ) (stored delivered : Bool)
  | openStargazer (peerId : PeerId) (delivered : Bool)
  | channelOpened (peerId : PeerId)
  | channelClosed (peerId : PeerId)
  | pagePushed (peerId : PeerId)
  | chatAppended (peerId : PeerId)
  /-- The holder of a key makes a payload. -/
  | payloadSealed (maker : PeerId) (payload : Bytes)
  | restart (connected : List PeerId)

namespace PeerModel

variable {Secret Key : Type} (dv : RelayDevice Secret Key) (m : PeerModel)

/-- The first start. -/
def fresh : PeerModel :=
  ⟨Table.empty, Table.empty, fun _ => none, fun _ => [], fun _ => none, fun _ => 0, [], [], [],
    Table.empty, "", Table.empty⟩

/-- The name to show for a shortened key: the nickname, else the broadcast name, unless the one
found is empty. -/
def resolvedPeerName (peerHex : String) : String :=
  match ((m.nicknames.get peerHex).or (m.displayNames.get peerHex)).filter (· ≠ "") with
  | some name => name
  | none => "···" ++ peerHex

def testPeerDisplayName : String := "zodia-test-peer"

/-- Whether the peer is hidden from the peers one may discover. -/
def isTestPeer (peerId : PeerId) : Bool :=
  match m.nicknames.get (peerTag peerId) with
  | some _ => false
  | none => m.displayNames.get (peerTag peerId) = some testPeerDisplayName

/-! ### Handlers -/

def setNickname (peerId : PeerId) (name : String) (order : HashOrder) : PeerModel :=
  let nicknames :=
    if trimName name = "" then m.nicknames.erase (peerTag peerId)
    else m.nicknames.upsert (peerTag peerId, trimName name)
  { m with nicknames := nicknames, nicknamesTsv := saveNicknames order nicknames }

def displayNameSet (by_ : PeerId) (name : String) (timestamp : UInt64) : PeerModel :=
  let (table, written) := m.peerDisplayNames.setIfNewer by_ name timestamp
  { m with
    peerDisplayNames := table
    displayNames := if written then m.displayNames.upsert (peerTag by_, name) else m.displayNames }

/-- Keep a message in the store and in the chat of the peer. -/
def addMessage (peerId : PeerId) (line : ChatLine) (ts : ℕ) (stored : Bool) : PeerModel :=
  { m with
    messages := if stored then m.messages ++ [⟨peerId, line, ts⟩] else m.messages
    chatLogs := Function.update m.chatLogs peerId (m.chatLogs peerId ++ [line]) }

def countUnread (peerId : PeerId) : PeerModel :=
  { m with
    unread := Function.update m.unread (peerTag peerId)
      (some ((m.unread (peerTag peerId)).getD 0 + 1)) }

/-- A message of somebody else. -/
def receive (peerId : PeerId) (text : String) (source : ChatSource) (ts : ℕ) (stored : Bool) :
    PeerModel :=
  (m.countUnread peerId).addMessage peerId ⟨false, text, source⟩ ts stored

def send (peerId : PeerId) (msg : ChannelMsg) : PeerModel :=
  { m with sent := (peerId, msg) :: m.sent }

/-- What a relay payload says to the holder of the relay key. -/
def openRelay (payload : Bytes) : Option RelayPayload :=
  match eciesDecrypt dv.dh dv.kdf dv.aead dv.relaySk payload with
  | .ok plaintext => (RelayPayload.decode plaintext).toOption
  | .error _ => none

/-- A relay message is for us, or for a peer we have a channel to. -/
def relayReceived (dest : PeerId) (payload : Bytes) (ts : ℕ) (stored delivered : Bool) :
    PeerModel :=
  if dest = dv.nodeId then
    match openRelay dv payload with
    | some rp => m.receive rp.sender rp.text (.relay payload) ts stored
    | none => m
  else if dest ∈ m.channels ∧ delivered then m.send dest (.relayMsg dest payload)
  else m

def sendChat (peerId : PeerId) (text : String) (ts : ℕ) (stored delivered : Bool) : PeerModel :=
  if peerId ∈ m.channels ∧ delivered then
    (m.send peerId (.chatMsg text)).addMessage peerId ⟨true, text, .own⟩ ts stored
  else m

/-- Note who made a payload; the randomness of a sender makes every payload a new one. -/
def note (maker : PeerId) (payload : Bytes) : PeerModel :=
  { m with sealed := m.sealed.insertOrIgnore (payload, maker) }

def sendViaRelay (relay dest : PeerId) (relayPk : Bytes32) (text : String) (ek : Secret)
    (nonce : Crypto.Nonce) (ts : ℕ) (stored delivered : Bool) : PeerModel :=
  if relay ∈ m.channels then
    match eciesEncrypt dv.dh dv.kdf dv.aead relayPk (RelayPayload.encode ⟨dv.nodeId, text⟩) ek
      nonce with
    | none => m
    | some payload =>
      if delivered then
        ((m.note dv.nodeId payload).send relay (.relayMsg dest payload)).addMessage dest
          ⟨true, text, .own⟩ ts stored
      else m.note dv.nodeId payload
  else m

def openStargazer (peerId : PeerId) (delivered : Bool) : PeerModel :=
  let read := { m with unread := Function.update m.unread (peerTag peerId) none }
  if peerId ∈ m.channels ∧ delivered then read.send peerId .chatRead else read

/-- Build the page of a peer unless there is one for its shortened key. -/
def pagePushed (peerId : PeerId) : PeerModel :=
  match m.pages (peerTag peerId) with
  | some _ => m
  | none => { m with pages := Function.update m.pages (peerTag peerId) (some ⟨peerId, []⟩) }

/-- Append the lines of a chat that its page does not show yet. -/
def chatAppended (peerId : PeerId) : PeerModel :=
  let tag := peerTag peerId
  let messages := m.chatLogs peerId
  if m.chatShown tag < messages.length then
    match m.pages tag with
    | none => m
    | some page =>
      { m with
        pages := Function.update m.pages tag
          (some { page with lines := page.lines ++ messages.drop (m.chatShown tag) })
        chatShown := Function.update m.chatShown tag messages.length }
  else m

/-- The next start: the nicknames come from the file, the broadcast names and the chats of the
connected peers from the store. -/
def restart (connected : List PeerId) : PeerModel :=
  { m with
    nicknames := loadNicknames m.nicknamesTsv
    displayNames := .ofEntries (m.peerDisplayNames.rows.map fun r => (peerTag r.peerPk, r.name))
    unread := fun _ => none
    chatLogs := fun peerId => if peerId ∈ connected then messagesForPeer m.messages peerId else []
    pages := fun _ => none
    chatShown := fun _ => 0
    channels := []
    sent := [] }

def step (m : PeerModel) : PeerEvent Secret → PeerModel
  | .setNickname peerId name order => m.setNickname peerId name order
  | .displayNameSet by_ name timestamp stored =>
    if stored then m.displayNameSet by_ name timestamp else m
  | .chatReceived sender text ts stored => m.receive sender text (.channel sender) ts stored
  | .relayReceived _ dest payload ts stored delivered =>
    m.relayReceived dv dest payload ts stored delivered
  | .sendChat peerId text ts stored delivered => m.sendChat peerId text ts stored delivered
  | .sendViaRelay relay dest relayPk text ek nonce ts stored delivered =>
    m.sendViaRelay dv relay dest relayPk text ek nonce ts stored delivered
  | .openStargazer peerId delivered => m.openStargazer peerId delivered
  | .channelOpened peerId => { m with channels := peerId :: m.channels }
  | .channelClosed peerId => { m with channels := m.channels.filter (· ≠ peerId) }
  | .pagePushed peerId => m.pagePushed peerId
  | .chatAppended peerId => m.chatAppended peerId
  | .payloadSealed maker payload => m.note maker payload
  | .restart connected => m.restart connected

end PeerModel

end Zodia.App
