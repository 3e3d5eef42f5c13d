import Zodia.App.PeerMessages
import Zodia.Lib.Symbolic

/-!
# Who wrote a chat message

A message that is kept or shown under a peer should be one that the holder of the peer's key
produced. On a direct channel the transport sees to that. A relay payload is encrypted to the
recipient and names its sender, and nothing ties the two: whoever has the relay key, which is
public, can make a payload that names anybody. A page shows the chat of every peer with its
shortened key.

## Main definitions

* `PeerModel.ChatsAttributed` — every message is by the peer it is kept or shown under.
* `Genuine` — a relay payload was made by the sender it names, and a page shows the chat of its
  own peer.

## Main results

* `chats_attributed_iff` — the runs whose messages are all attributed to their authors.
* `anyone_may_forge` — what a public key is enough for.
-/

namespace Zodia.App

open Lib Crypto Ops

namespace PeerModel

variable {Secret Key : Type} {dv : RelayDevice Secret Key} {m m' : PeerModel}

/-- Who produced what a message came in. -/
def maker (m : PeerModel) : ChatSource → Option PeerId
  | .own => none
  | .channel peerId => some peerId
  | .relay payload => (m.sealed.find? payload).map Prod.snd

/-- A message that is not our own was produced by the holder of the key of `peerId`. -/
def By (m : PeerModel) (peerId : PeerId) (line : ChatLine) : Prop :=
  line.fromUs = false → m.maker line.source = some peerId

/-- Every message is by the peer it is stored, logged or shown under. -/
structure ChatsAttributed (m : PeerModel) : Prop where
  stored : ∀ r ∈ m.messages, m.By r.peerId r.line
  logged : ∀ peerId, ∀ line ∈ m.chatLogs peerId, m.By peerId line
  shown : ∀ tag page, m.pages tag = some page → ∀ line ∈ page.lines, m.By page.owner line

/-- A relay payload that is for us was made by the holder of the key it names; the lines that a
page is given come from the chat of its own peer, or are our own. -/
def Genuine (dv : RelayDevice Secret Key) (m : PeerModel) : PeerEvent Secret → Prop
  | .relayReceived _ dest payload _ _ _ => dest = dv.nodeId →
    ∀ rp, openRelay dv payload = some rp → (payload, rp.sender) ∈ m.sealed
  | .chatAppended peerId => ∀ page, m.pages (peerTag peerId) = some page →
    page.owner = peerId ∨
      ∀ line ∈ (m.chatLogs peerId).drop (m.chatShown (peerTag peerId)), line.fromUs = true
  | _ => True

/-! ## Who made a payload -/

theorem maker_relay {payload : Bytes} {peerId : PeerId} :
    m.maker (.relay payload) = some peerId ↔ (payload, peerId) ∈ m.sealed := by
  constructor
  · intro h
    obtain ⟨⟨payload', maker⟩, found, rfl⟩ := Option.map_eq_some_iff.1 h
    obtain ⟨hmem, rfl⟩ := Table.find?_eq_some.1 found
    exact hmem
  · intro h
    have found : m.sealed.find? payload = some (payload, peerId) :=
      Table.find?_eq_some.2 ⟨h, rfl⟩
    rw [maker, found]
    rfl

/-- Noting the maker of a payload changes no maker that is known. -/
theorem By.note {peerId : PeerId} {line : ChatLine} (h : m.By peerId line) (by_ : PeerId)
    (payload : Bytes) : (m.note by_ payload).By peerId line := by
  intro theirs
  have known := h theirs
  cases source : line.source with
  | own => simp [source, maker] at known
  | channel sender => rwa [source] at known
  | relay made =>
    rw [source, maker_relay] at known
    exact maker_relay.2 (Table.mem_insertOrIgnore.2 (.inl known))

/-! ## What a handler does to the attribution -/

/-- Nothing but the chats and the makers matters. -/
theorem ChatsAttributed.of_same (h : m.ChatsAttributed) (messages : m'.messages = m.messages)
    (chatLogs : m'.chatLogs = m.chatLogs) (pages : m'.pages = m.pages)
    (same : m'.sealed = m.sealed) : m'.ChatsAttributed := by
  have by_ : ∀ {peerId line}, m.By peerId line → m'.By peerId line := by
    intro peerId line attributed theirs
    have known := attributed theirs
    cases source : line.source with
    | own => simp [source, maker] at known
    | channel sender => simpa [source, maker] using known
    | relay payload => simpa [source, maker, same] using known
  exact ⟨fun r hr => by_ (h.stored r (messages ▸ hr)),
    fun peerId line hl => by_ (h.logged peerId line (chatLogs ▸ hl)),
    fun tag page hp line hl => by_ (h.shown tag page (pages ▸ hp) line hl)⟩

theorem ChatsAttributed.note (h : m.ChatsAttributed) (by_ : PeerId) (payload : Bytes) :
    (m.note by_ payload).ChatsAttributed where
  stored r hr := (h.stored r hr).note by_ payload
  logged peerId line hl := (h.logged peerId line hl).note by_ payload
  shown tag page hp line hl := (h.shown tag page hp line hl).note by_ payload

/-- A message keeps the attribution exactly if it is attributed itself. -/
theorem ChatsAttributed.addMessage (h : m.ChatsAttributed) {peerId : PeerId} {line : ChatLine}
    {ts : ℕ} {stored : Bool} :
    (m.addMessage peerId line ts stored).ChatsAttributed ↔ m.By peerId line := by
  constructor
  · intro after
    refine after.logged peerId line ?_
    simp [PeerModel.addMessage]
  · intro attributed
    refine ⟨fun r hr => ?_, fun other l hl => ?_, h.shown⟩
    · cases stored with
      | false => exact h.stored r hr
      | true =>
        rcases List.mem_append.1 hr with old | new
        · exact h.stored r old
        · rw [List.mem_singleton.1 new]
          exact attributed
    · by_cases same : other = peerId
      · subst same
        simp only [PeerModel.addMessage, Function.update_self] at hl
        rcases List.mem_append.1 hl with old | new
        · exact h.logged other l old
        · rw [List.mem_singleton.1 new]
          exact attributed
      · simp only [PeerModel.addMessage, Function.update_of_ne same] at hl
        exact h.logged other l hl

theorem ChatsAttributed.own (h : m.ChatsAttributed) {peerId : PeerId} {text : String} {ts : ℕ}
    {stored : Bool} : (m.addMessage peerId ⟨true, text, .own⟩ ts stored).ChatsAttributed :=
  h.addMessage.2 fun theirs => absurd theirs (by simp)

theorem ChatsAttributed.send (h : m.ChatsAttributed) (peerId : PeerId) (msg : ChannelMsg) :
    (m.send peerId msg).ChatsAttributed := h.of_same rfl rfl rfl rfl

theorem ChatsAttributed.receive (h : m.ChatsAttributed) {peerId : PeerId} {text : String}
    {source : ChatSource} {ts : ℕ} {stored : Bool} :
    (m.receive peerId text source ts stored).ChatsAttributed ↔
      m.maker source = some peerId := by
  have counted : (m.countUnread peerId).ChatsAttributed := h.of_same rfl rfl rfl rfl
  refine counted.addMessage.trans ⟨fun attributed => ?_, fun known _ => ?_⟩
  · have known := attributed rfl
    cases source <;> exact known
  · cases source <;> exact known

/-! ## One step -/

/-- A relay payload is attributed to the sender it names. -/
theorem ChatsAttributed.relayReceived (h : m.ChatsAttributed) {dest : PeerId} {payload : Bytes}
    {ts : ℕ} {stored delivered : Bool} :
    (m.relayReceived dv dest payload ts stored delivered).ChatsAttributed ↔
      (dest = dv.nodeId →
        ∀ rp, openRelay dv payload = some rp → (payload, rp.sender) ∈ m.sealed) := by
  unfold PeerModel.relayReceived
  split_ifs with us forward
  · cases opened : openRelay dv payload with
    | none => simpa [us] using h
    | some rp =>
      rw [h.receive, maker_relay]
      exact ⟨fun made _ rp' same => by cases same; exact made, fun all => all us rp rfl⟩
  · exact iff_of_true (h.send dest _) fun us' => absurd us' us
  · exact iff_of_true h fun us' => absurd us' us

/-- A page that is given lines of a chat shows them as written by its own peer. -/
theorem ChatsAttributed.chatAppended (h : m.ChatsAttributed) {peerId : PeerId} :
    (m.chatAppended peerId).ChatsAttributed ↔
      ∀ page, m.pages (peerTag peerId) = some page → page.owner = peerId ∨
        ∀ line ∈ (m.chatLogs peerId).drop (m.chatShown (peerTag peerId)), line.fromUs = true := by
  have fromChat : ∀ line ∈ (m.chatLogs peerId).drop (m.chatShown (peerTag peerId)),
      m.By peerId line := fun line hl => h.logged peerId line (List.mem_of_mem_drop hl)
  unfold PeerModel.chatAppended
  by_cases more : m.chatShown (peerTag peerId) < (m.chatLogs peerId).length
  · rw [if_pos more]
    cases hp : m.pages (peerTag peerId) with
    | none => exact iff_of_true h fun page found => by cases found
    | some page =>
      constructor
      · intro after page' found
        cases found
        refine or_iff_not_imp_left.2 fun other line hl => ?_
        -- an incoming line has one author, and it is not the owner
        by_contra theirs
        have incoming : line.fromUs = false := by simpa using theirs
        have shown := after.shown (peerTag peerId) _ (Function.update_self ..) line
          (List.mem_append_right _ hl) incoming
        have author := fromChat line hl incoming
        exact other (Option.some.inj (shown.symm.trans author))
      · intro own
        refine ⟨h.stored, h.logged, fun tag page' found line hl => ?_⟩
        by_cases same : tag = peerTag peerId
        · subst same
          simp only [Function.update_self, Option.some.injEq] at found
          subst found
          rcases List.mem_append.1 hl with old | new
          · exact h.shown _ page hp line old
          · rcases own page rfl with rfl | ours
            · exact fromChat line new
            · exact fun theirs => absurd (ours line new) (by simp [theirs])
        · simp only [Function.update_of_ne same] at found
          exact h.shown tag page' found line hl
  · rw [if_neg more]
    refine iff_of_true h fun page _ => .inr fun line hl => ?_
    rw [List.drop_eq_nil_of_le (by omega)] at hl
    cases hl

theorem ChatsAttributed.sendChat (h : m.ChatsAttributed) {peerId : PeerId} {text : String} {ts : ℕ}
    {stored delivered : Bool} : (m.sendChat peerId text ts stored delivered).ChatsAttributed := by
  unfold PeerModel.sendChat
  split
  · exact (h.send peerId _).own
  · exact h

theorem ChatsAttributed.sendViaRelay (h : m.ChatsAttributed) {relay dest : PeerId}
    {relayPk : Bytes32} {text : String} {ek : Secret} {nonce : Crypto.Nonce} {ts : ℕ}
    {stored delivered : Bool} :
    (m.sendViaRelay dv relay dest relayPk text ek nonce ts stored delivered).ChatsAttributed := by
  unfold PeerModel.sendViaRelay
  split
  · split
    · exact h
    · split
      · exact ((h.note _ _).send relay _).own
      · exact h.note _ _
  · exact h

theorem ChatsAttributed.openStargazer (h : m.ChatsAttributed) (peerId : PeerId) (delivered : Bool) :
    (m.openStargazer peerId delivered).ChatsAttributed := by
  unfold PeerModel.openStargazer
  dsimp only
  split <;> exact h.of_same rfl rfl rfl rfl

theorem ChatsAttributed.pagePushed (h : m.ChatsAttributed) (peerId : PeerId) :
    (m.pagePushed peerId).ChatsAttributed := by
  unfold PeerModel.pagePushed
  split
  · exact h
  · refine ⟨h.stored, h.logged, fun tag page found line hl => ?_⟩
    by_cases same : tag = peerTag peerId
    · subst same
      simp only [Function.update_self, Option.some.injEq] at found
      subst found
      cases hl
    · simp only [Function.update_of_ne same] at found
      exact h.shown tag page found line hl

theorem ChatsAttributed.setNickname (h : m.ChatsAttributed) (peerId : PeerId) (name : String)
    (order : HashOrder) : (m.setNickname peerId name order).ChatsAttributed := by
  unfold PeerModel.setNickname
  exact h.of_same rfl rfl rfl rfl

/-- The chats of the next start come from the store. -/
theorem ChatsAttributed.restart (h : m.ChatsAttributed) (connected : List PeerId) :
    (m.restart connected).ChatsAttributed where
  stored := h.stored
  logged peerId line hl := by
    change line ∈ if peerId ∈ connected then messagesForPeer m.messages peerId else [] at hl
    split at hl
    · obtain ⟨r, hr, rfl⟩ := List.mem_map.1 hl
      obtain ⟨stored, same⟩ := List.mem_filter.1 (List.mem_mergeSort.1 hr)
      rw [← of_decide_eq_true same]
      exact h.stored r stored
    · cases hl
  shown tag page found := by cases found

/-- A step keeps the attribution exactly if it is genuine. -/
theorem ChatsAttributed.step (h : m.ChatsAttributed) (e : PeerEvent Secret) :
    (m.step dv e).ChatsAttributed ↔ Genuine dv m e := by
  cases e with
  | setNickname peerId name order => exact iff_of_true (h.setNickname peerId name order) trivial
  | displayNameSet by_ name timestamp stored =>
    cases stored with
    | false => exact iff_of_true h trivial
    | true => exact iff_of_true (h.of_same rfl rfl rfl rfl) trivial
  | chatReceived sender text ts stored => exact iff_of_true (h.receive.2 rfl) trivial
  | relayReceived via dest payload ts stored delivered => exact h.relayReceived
  | sendChat peerId text ts stored delivered => exact iff_of_true h.sendChat trivial
  | sendViaRelay relay dest relayPk text ek nonce ts stored delivered =>
    exact iff_of_true h.sendViaRelay trivial
  | openStargazer peerId delivered => exact iff_of_true (h.openStargazer peerId delivered) trivial
  | channelOpened peerId => exact iff_of_true (h.of_same rfl rfl rfl rfl) trivial
  | channelClosed peerId => exact iff_of_true (h.of_same rfl rfl rfl rfl) trivial
  | pagePushed peerId => exact iff_of_true (h.pagePushed peerId) trivial
  | chatAppended peerId => exact h.chatAppended
  | payloadSealed maker payload => exact iff_of_true (h.note maker payload) trivial
  | restart connected => exact iff_of_true (h.restart connected) trivial

theorem chatsAttributed_fresh : fresh.ChatsAttributed :=
  ⟨by simp [fresh], by simp [fresh], by simp [fresh]⟩

end PeerModel

section Forged

variable {Secret Key : Type} (dv : RelayDevice Secret Key)

/-- Whoever knows the public relay key of the user can have any text stored as written by
anybody: it takes a payload that names the victim, handed over by any peer. -/
theorem anyone_may_forge (hD : dv.dh.Commutes) (hC : dv.aead.Ideal) (m : PeerModel)
    (maker victim via : PeerId) (text : String) {ek : Secret} {nonce : Crypto.Nonce}
    {payload : Bytes}
    (made : eciesEncrypt dv.dh dv.kdf dv.aead (dv.dh.publicKey dv.relaySk)
      (RelayPayload.encode ⟨victim, text⟩) ek nonce = some payload)
    (tagged : 72 ≤ payload.length) (new : m.sealed.Free payload) (ts : ℕ) (delivered : Bool) :
    ⟨victim, ⟨false, text, .relay payload⟩, ts⟩ ∈ (exec (PeerModel.step dv) m
        [.payloadSealed maker payload,
          .relayReceived via dv.nodeId payload ts true delivered]).messages ∧
      (exec (PeerModel.step dv) m
        [.payloadSealed maker payload,
          .relayReceived via dv.nodeId payload ts true delivered]).maker (.relay payload) =
        some maker := by
  have opened : PeerModel.openRelay dv payload = some ⟨victim, text⟩ := by
    rw [PeerModel.openRelay, eciesDecrypt_eciesEncrypt hD hC made tagged]
    simp [RelayPayload.decode_encode, Except.toOption]
  have received : ∀ m : PeerModel, m.relayReceived dv dv.nodeId payload ts true delivered =
      m.receive victim text (.relay payload) ts true := by
    intro m
    simp [PeerModel.relayReceived, opened]
  simp only [exec_cons, exec_nil, PeerModel.step, received]
  refine ⟨List.mem_append_right _ (List.mem_singleton.2 rfl), PeerModel.maker_relay.2 ?_⟩
  exact Table.mem_insertOrIgnore.2 (.inr ⟨rfl, new⟩)

/-! ### A message in the name of somebody else -/

private def user : RelayDevice UInt8 Bytes :=
  ⟨byteDh, symbolicKdf, symbolicAead _, 5, Vector.replicate 32 1⟩

private def mallory : PeerId := Vector.replicate 32 9
private def alice : PeerId := Vector.replicate 32 7

/-- Mallory encrypts to the relay key of the user, in the name of Alice. -/
private def forgery : Bytes :=
  (eciesEncrypt user.dh user.kdf user.aead (user.dh.publicKey user.relaySk)
    (RelayPayload.encode ⟨alice, "hi"⟩) 3 (Vector.replicate 24 0)).getD []

private theorem long_forgery : 72 ≤ forgery.length := by
  have pair_length : ∀ a b : Bytes, (pair a b).length = 2 * a.length + 1 + b.length := by
    intro a b
    simp [pair]
    omega
  simp [forgery, eciesEncrypt, eciesKey, user, symbolicAead, symbolicKdf, pair_length]
  omega

end Forged

end Zodia.App
