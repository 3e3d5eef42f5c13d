import Zodia.App.PeerMessages
import Zodia.Lib.Symbolic
import Zodia.Lib.Wire

/-!
# Chats across a network

Many applications that chat with each other, on direct channels and through relays. Every node runs
the handlers of `app/src/app.rs`; what a node sends is an envelope on the wire, which may be
lost or overtaken. Channels open and close, and nodes restart, at any time. A relay message may
be encrypted to any key: after a restart the program encrypts to the zero key until the peer
announces its own again, and such a message is opened by nobody.

## Main definitions

* `chatAct`, `chatArrive` — a node acting of its own accord, and handling a message.
* `HonestAct` — the nodes send what the program sends.

## Main results

* `chat_at_most_once` — every message is received at most as often as it was sent, under the name
  of its sender, and no message is passed on more than once.
-/

namespace Zodia.App

open Lib Crypto Ops

variable {Secret Key : Type}

/-! ## The nodes -/

/-- The cryptography that all devices share, and the relay secret of each. -/
structure RelayDevices (Secret Key : Type) where
  dh : DiffieHellman Secret
  kdf : Kdf Key
  aead : Aead Key Crypto.Nonce
  relaySk : PeerId → Secret

def RelayDevices.device (ds : RelayDevices Secret Key) (p : PeerId) : RelayDevice Secret Key :=
  ⟨ds.dh, ds.kdf, ds.aead, ds.relaySk p, p⟩

/-- A message that was sent. -/
structure ChatNote where
  author : PeerId
  dest : PeerId
  text : String
  deriving DecidableEq

abbrev ChatNetwork := Network PeerId PeerModel ChannelMsg ChatNote

/-- What a handler sent, the latest first. -/
def newSent (m m' : PeerModel) : List (PeerId × ChannelMsg) :=
  m'.sent.take (m'.sent.length - m.sent.length)

/-- The message that a send is about. -/
def PeerEvent.notes (p : PeerId) : PeerEvent Secret → List ChatNote
  | .sendChat peerId text _ _ _ => [⟨p, peerId, text⟩]
  | .sendViaRelay _ dest _ text _ _ _ _ _ => [⟨p, dest, text⟩]
  | _ => []

section Handlers

variable (ds : RelayDevices Secret Key)

/-- An action of the user or of the program, and the messages it sends. -/
def chatAct (p : PeerId) (m : PeerModel) (e : PeerEvent Secret) :
    Effect PeerId PeerModel ChannelMsg ChatNote :=
  let m' := PeerModel.step (ds.device p) m e
  { state := m'
    out := (newSent m m').map fun s => ⟨p, s.1, s.2⟩
    notes := if newSent m m' = [] then [] else e.notes p }

/-- What happens as a message arrives: when, whether the store keeps it, and whether the channel
takes what is passed on. -/
structure ChatArrival where
  ts : ℕ
  stored : Bool
  delivered : Bool

/-- The event that the listener of a channel makes of a message. -/
def channelEvent (env : Envelope PeerId ChannelMsg) (r : ChatArrival) :
    Option (PeerEvent Secret) :=
  match env.msg with
  | .chatMsg text => some (.chatReceived env.source text r.ts r.stored)
  | .relayMsg dest payload =>
    some (.relayReceived env.source dest payload r.ts r.stored r.delivered)
  | .chatRead => none

/-- A message is handled at its target. -/
def chatArrive (m : PeerModel) (env : Envelope PeerId ChannelMsg) (r : ChatArrival) :
    PeerModel × List (Envelope PeerId ChannelMsg) :=
  match channelEvent env r with
  | none => (m, [])
  | some e =>
    let m' := PeerModel.step (ds.device env.target) m e
    (m', (newSent m m').map fun s => ⟨env.target, s.1, s.2⟩)

/-- What is not an arrival: messages arrive only from the wire. -/
def HonestAct (_p : PeerId) (_m : PeerModel) : PeerEvent Secret → Prop
  | .chatReceived _ _ _ _ | .relayReceived _ _ _ _ _ _ | .payloadSealed _ _ => False
  | _ => True

/-- What an envelope amounts to for the node it is meant for. -/
def chatMeaning (env : Envelope PeerId ChannelMsg) : Option ChatNote :=
  match env.msg with
  | .chatMsg text => some ⟨env.source, env.target, text⟩
  | .relayMsg dest payload =>
    (PeerModel.openRelay (ds.device dest) payload).map fun rp => ⟨rp.sender, dest, rp.text⟩
  | .chatRead => none

end Handlers

/-- The lines of somebody else in a chat with a text. -/
def logged (m : PeerModel) (g : ChatNote) : ℕ :=
  (m.chatLogs g.author).countP fun l => l.fromUs = false ∧ l.text = g.text

/-- The stored messages of somebody else with a text. -/
def stored (m : PeerModel) (g : ChatNote) : ℕ :=
  m.messages.countP fun r => r.peerId = g.author ∧ r.line.fromUs = false ∧ r.line.text = g.text

/-- How often a message was received, as the chat or as the store has it. -/
def received (m : PeerModel) (g : ChatNote) : ℕ := max (logged m g) (stored m g)

/-- A relay message away from its destination has two hops to go, or is dropped. -/
def hops (env : Envelope PeerId ChannelMsg) : ℕ :=
  match env.msg with
  | .relayMsg dest _ => if env.target = dest then 1 else 2
  | .chatMsg _ | .chatRead => 1

/-! ## One node -/

section Node

variable {ds : RelayDevices Secret Key} {m m' : PeerModel}

theorem newSent_eq_nil (h : m'.sent = m.sent ∨ m'.sent = []) : newSent m m' = [] := by
  rcases h with same | cleared
  · simp [newSent, same]
  · simp [newSent, cleared]

theorem newSent_send {s : PeerId × ChannelMsg} (h : m'.sent = s :: m.sent) :
    newSent m m' = [s] := by
  simp [newSent, h]

theorem received_congr (logs : m'.chatLogs = m.chatLogs) (messages : m'.messages = m.messages)
    (g : ChatNote) : received m' g = received m g := by
  simp only [received, logged, stored, logs, messages]

/-- A message counts where it is by its sender. -/
theorem received_addMessage (peerId : PeerId) (line : ChatLine) (ts : ℕ) (kept : Bool)
    (g : ChatNote) :
    received (m.addMessage peerId line ts kept) g ≤
      received m g + if peerId = g.author ∧ line.fromUs = false ∧ line.text = g.text then 1
        else 0 := by
  have log : logged (m.addMessage peerId line ts kept) g ≤
      logged m g + if peerId = g.author ∧ line.fromUs = false ∧ line.text = g.text then 1
        else 0 := by
    by_cases own : peerId = g.author
    · subst own
      simp only [logged, PeerModel.addMessage, Function.update_self, List.countP_append,
        List.countP_singleton]
      simp
    · simp only [logged, PeerModel.addMessage, Function.update_of_ne (Ne.symm own)]
      omega
  have row : stored (m.addMessage peerId line ts kept) g ≤
      stored m g + if peerId = g.author ∧ line.fromUs = false ∧ line.text = g.text then 1
        else 0 := by
    cases kept with
    | false =>
      simp only [stored, PeerModel.addMessage, Bool.false_eq_true, if_false]
      omega
    | true =>
      simp only [stored, PeerModel.addMessage, if_true, List.countP_append,
        List.countP_singleton]
      simp
  unfold received
  omega

theorem received_own (peerId : PeerId) (text : String) (source : ChatSource) (ts : ℕ) (kept : Bool)
    (g : ChatNote) : received (m.addMessage peerId ⟨true, text, source⟩ ts kept) g ≤
      received m g := by
  simpa using @received_addMessage m peerId ⟨true, text, source⟩ ts kept g

/-- The chats of the next start are what the store has. -/
theorem received_restart (connected : List PeerId) (g : ChatNote) :
    received (m.restart connected) g ≤ received m g := by
  have log : logged (m.restart connected) g ≤ stored m g := by
    by_cases mem : g.author ∈ connected
    · have sorted := List.mergeSort_perm (m.messages.filter fun r => r.peerId = g.author)
        fun r r' => r.ts ≤ r'.ts
      simp only [logged, PeerModel.restart, if_pos mem, messagesForPeer, stored, List.countP_map,
        sorted.countP_eq, List.countP_filter, Function.comp_def]
      refine List.countP_mono_left fun r _ counted => ?_
      simp only [Bool.and_eq_true, decide_eq_true_eq] at counted ⊢
      exact ⟨counted.2, counted.1⟩
    · simp [logged, PeerModel.restart, mem]
  have same : stored (m.restart connected) g = stored m g := rfl
  unfold received
  omega

/-- A payload opens to what was encrypted, if it opens. -/
theorem openRelay_eciesEncrypt (hC : ds.aead.Ideal) {p dest : PeerId} {relayPk : Bytes32}
    {text : String} {ek : Secret} {nonce : Crypto.Nonce} {payload : Bytes} {rp : RelayPayload}
    (made : eciesEncrypt ds.dh ds.kdf ds.aead relayPk (RelayPayload.encode ⟨p, text⟩) ek nonce =
      some payload)
    (opened : PeerModel.openRelay (ds.device dest) payload = some rp) : rp = ⟨p, text⟩ := by
  simp only [PeerModel.openRelay, RelayDevices.device] at opened
  split at opened
  · next plaintext read =>
    rw [eq_of_eciesDecrypt hC made read, RelayPayload.decode_encode] at opened
    exact (Option.some.inj opened).symm
  · cases opened

/-! ### Actions -/

/-- An action without messages that receives nothing. -/
theorem chatAct_quiet {p : PeerId} {e : PeerEvent Secret} {g : ChatNote}
    (sent : (PeerModel.step (ds.device p) m e).sent = m.sent ∨
      (PeerModel.step (ds.device p) m e).sent = [])
    (le : received (PeerModel.step (ds.device p) m e) g ≤ received m g) :
    Network.tally ChatNote.dest received p (chatAct ds p m e).state g +
        onWire (chatMeaning ds) (chatAct ds p m e).out g ≤
      Network.tally ChatNote.dest received p m g + (chatAct ds p m e).notes.count g := by
  simp only [chatAct, newSent_eq_nil sent, onWire, List.map_nil, List.filterMap_nil,
    List.count_nil, if_true, Network.tally]
  split_ifs
  · simpa using le
  · simp

/-- An action that sends one message and receives nothing. -/
theorem chatAct_sends {p : PeerId} {e : PeerEvent Secret} {g : ChatNote}
    {s : PeerId × ChannelMsg} (sent : (PeerModel.step (ds.device p) m e).sent = s :: m.sent)
    (le : received (PeerModel.step (ds.device p) m e) g ≤ received m g)
    (noted : ∀ note, chatMeaning ds ⟨p, s.1, s.2⟩ = some note → e.notes p = [note]) :
    Network.tally ChatNote.dest received p (chatAct ds p m e).state g +
        onWire (chatMeaning ds) (chatAct ds p m e).out g ≤
      Network.tally ChatNote.dest received p m g + (chatAct ds p m e).notes.count g := by
  have wire : onWire (chatMeaning ds) [⟨p, s.1, s.2⟩] g ≤ (e.notes p).count g := by
    cases means : chatMeaning ds ⟨p, s.1, s.2⟩ with
    | none => simp [onWire, means]
    | some note => simp [onWire, means, noted note means]
  have node : Network.tally ChatNote.dest received p (PeerModel.step (ds.device p) m e) g ≤
      Network.tally ChatNote.dest received p m g := by
    unfold Network.tally
    split_ifs
    · exact le
    · exact le_refl 0
  simp only [chatAct, newSent_send sent, List.map_cons, List.map_nil, List.cons_ne_nil, if_false]
  omega

theorem chatAct_conserves (hC : ds.aead.Ideal) (p : PeerId) (m : PeerModel)
    (e : PeerEvent Secret) (honest : HonestAct p m e) (g : ChatNote) :
    Network.tally ChatNote.dest received p (chatAct ds p m e).state g +
        onWire (chatMeaning ds) (chatAct ds p m e).out g ≤
      Network.tally ChatNote.dest received p m g + (chatAct ds p m e).notes.count g := by
  cases e with
  | setNickname peerId name order => exact chatAct_quiet (.inl rfl) (le_refl _)
  | displayNameSet by_ name timestamp kept =>
    cases kept with
    | false => exact chatAct_quiet (.inl rfl) (le_refl _)
    | true => exact chatAct_quiet (.inl rfl) (le_refl _)
  | chatReceived sender text ts kept => exact honest.elim
  | relayReceived via dest payload ts kept delivered => exact honest.elim
  | sendChat peerId text ts kept delivered =>
    by_cases taken : peerId ∈ m.channels ∧ delivered
    · have after : PeerModel.step (ds.device p) m (.sendChat peerId text ts kept delivered) =
          (m.send peerId (.chatMsg text)).addMessage peerId ⟨true, text, .own⟩ ts kept :=
        if_pos taken
      refine @chatAct_sends _ _ _ _ _ _ _ (peerId, .chatMsg text) (by rw [after]; rfl) ?_ ?_
      · rw [after]
        exact received_own _ _ _ _ _ g
      · rintro note means
        exact congrArg (fun note => [note]) (Option.some.inj means)
    · have after : PeerModel.step (ds.device p) m (.sendChat peerId text ts kept delivered) = m :=
        if_neg taken
      exact chatAct_quiet (.inl (by rw [after])) (by rw [after])
  | sendViaRelay relay dest relayPk text ek nonce ts kept delivered =>
    by_cases channel : relay ∈ m.channels
    · cases made : eciesEncrypt ds.dh ds.kdf ds.aead relayPk
          (RelayPayload.encode ⟨p, text⟩) ek nonce with
      | none =>
        have after : PeerModel.step (ds.device p) m (.sendViaRelay relay dest
            relayPk text ek nonce ts kept delivered) = m := by
          simp only [PeerModel.step, PeerModel.sendViaRelay, RelayDevices.device, if_pos channel,
            made]
        exact chatAct_quiet (.inl (by rw [after])) (by rw [after])
      | some payload =>
        cases delivered with
        | false =>
          have after : PeerModel.step (ds.device p) m (.sendViaRelay relay dest
              relayPk text ek nonce ts kept false) =
                m.note p payload := by
            simp only [PeerModel.step, PeerModel.sendViaRelay, RelayDevices.device, if_pos channel,
              made, Bool.false_eq_true, if_false]
          exact chatAct_quiet (.inl (by rw [after]; rfl)) (by rw [after]; exact le_refl _)
        | true =>
          have after : PeerModel.step (ds.device p) m (.sendViaRelay relay dest
              relayPk text ek nonce ts kept true) =
                ((m.note p payload).send relay (.relayMsg dest payload)).addMessage dest
                  ⟨true, text, .own⟩ ts kept := by
            simp only [PeerModel.step, PeerModel.sendViaRelay, RelayDevices.device, if_pos channel,
              made, if_true]
          refine @chatAct_sends _ _ _ _ _ _ _ (relay, .relayMsg dest payload)
            (by rw [after]; rfl) ?_ ?_
          · rw [after]
            exact received_own _ _ _ _ _ g
          · rintro note means
            obtain ⟨rp, opened, rfl⟩ := Option.map_eq_some_iff.1 means
            rw [openRelay_eciesEncrypt hC made opened]
            rfl
    · have after : PeerModel.step (ds.device p) m (.sendViaRelay relay dest
          relayPk text ek nonce ts kept delivered) = m := by
        simp only [PeerModel.step, PeerModel.sendViaRelay, if_neg channel]
      exact chatAct_quiet (.inl (by rw [after])) (by rw [after])
  | openStargazer peerId delivered =>
    by_cases taken : peerId ∈ m.channels ∧ delivered
    · refine @chatAct_sends _ _ _ _ _ _ _ (peerId, .chatRead) ?_ ?_ (fun note means => ?_)
      · simp only [PeerModel.step, PeerModel.openStargazer, if_pos taken]
        rfl
      · simp only [PeerModel.step, PeerModel.openStargazer, if_pos taken]
        exact le_refl _
      · cases means
    · refine chatAct_quiet (.inl ?_) ?_
      · simp only [PeerModel.step, PeerModel.openStargazer, if_neg taken]
      · simp only [PeerModel.step, PeerModel.openStargazer, if_neg taken]
        exact le_refl _
  | channelOpened peerId => exact chatAct_quiet (.inl rfl) (le_refl _)
  | channelClosed peerId => exact chatAct_quiet (.inl rfl) (le_refl _)
  | pagePushed peerId =>
    have kept : (m.pagePushed peerId).sent = m.sent ∧ (m.pagePushed peerId).chatLogs = m.chatLogs ∧
        (m.pagePushed peerId).messages = m.messages := by
      unfold PeerModel.pagePushed
      split <;> exact ⟨rfl, rfl, rfl⟩
    exact chatAct_quiet (.inl kept.1) (received_congr kept.2.1 kept.2.2 g).le
  | chatAppended peerId =>
    have kept : (m.chatAppended peerId).sent = m.sent ∧
        (m.chatAppended peerId).chatLogs = m.chatLogs ∧
        (m.chatAppended peerId).messages = m.messages := by
      unfold PeerModel.chatAppended
      dsimp only
      split
      · split <;> exact ⟨rfl, rfl, rfl⟩
      · exact ⟨rfl, rfl, rfl⟩
    exact chatAct_quiet (.inl kept.1) (received_congr kept.2.1 kept.2.2 g).le
  | payloadSealed maker payload => exact honest.elim
  | restart connected => exact chatAct_quiet (.inr rfl) (received_restart connected g)

/-! ### Arrivals -/

/-- A handled message is received, passed on or dropped. -/
theorem chatArrive_conserves (m : PeerModel) (env : Envelope PeerId ChannelMsg) (r : ChatArrival)
    (g : ChatNote) :
    Network.tally ChatNote.dest received env.target (chatArrive ds m env r).1 g +
        onWire (chatMeaning ds) (chatArrive ds m env r).2 g ≤
      Network.tally ChatNote.dest received env.target m g +
        onWire (chatMeaning ds) [env] g := by
  obtain ⟨source, target, msg⟩ := env
  -- What the node receives is what the envelope amounts to.
  have takes {peerId : PeerId} {text : String} {src : ChatSource}
      (means : chatMeaning ds ⟨source, target, msg⟩ = some ⟨peerId, target, text⟩) :
      Network.tally ChatNote.dest received target (m.receive peerId text src r.ts r.stored) g ≤
        Network.tally ChatNote.dest received target m g +
          onWire (chatMeaning ds) [⟨source, target, msg⟩] g := by
    have counted : onWire (chatMeaning ds) [⟨source, target, msg⟩] g =
        if ⟨peerId, target, text⟩ = g then 1 else 0 := by
      simp [onWire, means, List.count_singleton]
    have line := @received_addMessage (m.countUnread peerId) peerId ⟨false, text, src⟩ r.ts
      r.stored g
    have before : received (m.countUnread peerId) g = received m g := received_congr rfl rfl g
    rw [counted]
    unfold Network.tally
    split_ifs with own same same
    · exact line.trans (by rw [before]; split_ifs <;> omega)
    · refine line.trans ?_
      rw [if_neg, before]
      rintro ⟨author, -, words⟩
      obtain ⟨author', dest, text'⟩ := g
      simp only at author words own
      exact same (by rw [author, words, own])
    · omega
    · omega
  cases msg with
  | chatMsg text =>
    have nothing : newSent m (m.receive source text (.channel source) r.ts r.stored) = [] :=
      newSent_eq_nil (.inl rfl)
    have fits := @takes source text (.channel source) rfl
    simp only [chatArrive, channelEvent, PeerModel.step, nothing]
    simpa [onWire] using fits
  | chatRead => simp [chatArrive, channelEvent, onWire]
  | relayMsg dest payload =>
    simp only [chatArrive, channelEvent, PeerModel.step, PeerModel.relayReceived]
    split_ifs with own through
    · obtain rfl : dest = target := own
      cases opened : PeerModel.openRelay (ds.device dest) payload with
      | none => simp [newSent, onWire]
      | some rp =>
        have nothing : newSent m (m.receive rp.sender rp.text (.relay payload) r.ts r.stored) =
            [] := newSent_eq_nil (.inl rfl)
        have fits := @takes rp.sender rp.text (.relay payload) (by simp [chatMeaning, opened])
        simp only [nothing]
        simpa [onWire] using fits
    · have one : newSent m (m.send dest (.relayMsg dest payload)) =
          [(dest, .relayMsg dest payload)] := newSent_send rfl
      have same : Network.tally ChatNote.dest received target
          (m.send dest (.relayMsg dest payload)) g =
            Network.tally ChatNote.dest received target m g := rfl
      simp only [one, same, List.map_cons, List.map_nil]
      exact le_refl _
    · simp [newSent, onWire]

/-- What is passed on has fewer hops to go than what arrived. -/
theorem chatArrive_hops (m : PeerModel) (env : Envelope PeerId ChannelMsg) (r : ChatArrival) :
    ((chatArrive ds m env r).2.map hops).sum < hops env := by
  obtain ⟨source, target, msg⟩ := env
  cases msg with
  | chatMsg text =>
    have nothing : newSent m (m.receive source text (.channel source) r.ts r.stored) = [] :=
      newSent_eq_nil (.inl rfl)
    simp [chatArrive, channelEvent, PeerModel.step, nothing, hops]
  | chatRead => simp [chatArrive, channelEvent, hops]
  | relayMsg dest payload =>
    simp only [chatArrive, channelEvent, PeerModel.step, PeerModel.relayReceived, hops]
    split_ifs with own here through here here
    · cases opened : PeerModel.openRelay (ds.device target) payload with
      | none => simp [newSent]
      | some rp =>
        have nothing : newSent m (m.receive rp.sender rp.text (.relay payload) r.ts r.stored) =
            [] := newSent_eq_nil (.inl rfl)
        simp [nothing]
    · exact absurd own.symm here
    · exact absurd here.symm own
    · simp [PeerModel.send, newSent, hops]
    · exact absurd here.symm own
    · simp [newSent]

theorem hops_le (env : Envelope PeerId ChannelMsg) : hops env ≤ 2 := by
  unfold hops
  split
  · split_ifs <;> omega
  · omega
  · omega

end Node

/-! ## The network -/

/-- Whatever the order of sends, arrivals, losses, restarts and changes of channels: a message
stands in the chat, and in the store, of the node it is meant for at most as often as its author
sent it there, and the messages that arrive are at most twice those that were sent. -/
theorem chat_at_most_once (ds : RelayDevices Secret Key) (hC : ds.aead.Ideal)
    (es : List (WireEvent PeerId (PeerEvent Secret) ChatArrival))
    (honest : Along (Network.step (chatAct ds) (chatArrive ds)) (Network.Allowed HonestAct)
      (Network.start .fresh : ChatNetwork) es) :
    let net := exec (Network.step (chatAct ds) (chatArrive ds)) (Network.start .fresh) es
    (∀ g : ChatNote, logged (net.nodes g.dest) g ≤ net.notes.count g ∧
      stored (net.nodes g.dest) g ≤ net.notes.count g) ∧
    net.arrivals ≤ 2 * net.posts := by
  intro net
  have conserved : net.Conserved (chatMeaning ds) ChatNote.dest received := by
    refine Network.exec_conserved (chatAct_conserves hC) chatArrive_conserves ?_ honest
    intro g
    simp [Network.start, PeerModel.fresh, received, logged, stored, onWire]
  have fading : net.Fading hops 2 :=
    Network.exec_fading (fun _ _ _ _ env _ => hops_le env) chatArrive_hops
      (by simp [Network.Fading, Network.start]) honest
  constructor
  · intro g
    have bound := conserved g
    have log := le_max_left (logged (net.nodes g.dest) g) (stored (net.nodes g.dest) g)
    have row := le_max_right (logged (net.nodes g.dest) g) (stored (net.nodes g.dest) g)
    unfold received at bound
    omega
  · unfold Network.Fading at fading
    omega

/-- Alice writes to Bob through Carol, starts again, and writes to him once more, to a key of
nobody. -/
theorem chat_at_most_once_relayed :
    let ds : RelayDevices UInt8 Bytes := ⟨byteDh, symbolicKdf, symbolicAead _, fun _ => 5⟩
    let alice : PeerId := Vector.replicate 32 1
    let bob : PeerId := Vector.replicate 32 2
    let carol : PeerId := Vector.replicate 32 3
    let net := exec (Network.step (chatAct ds) (chatArrive ds)) (Network.start .fresh)
      [.act alice (.channelOpened carol), .act carol (.channelOpened bob),
        .act alice (.sendViaRelay carol bob (byteDh.publicKey 5) "hi" 3 (Vector.replicate 24 0) 0
          true true),
        .arrive 0 ⟨1, true, true⟩, .arrive 0 ⟨2, true, true⟩,
        .act alice (.restart [bob, carol]), .act alice (.channelOpened carol),
        .act alice (.sendViaRelay carol bob (Vector.replicate 32 0) "hi" 3 (Vector.replicate 24 1) 3
          true true),
        .arrive 0 ⟨4, true, true⟩, .arrive 0 ⟨5, true, true⟩]
    (∀ g : ChatNote, logged (net.nodes g.dest) g ≤ net.notes.count g ∧
      stored (net.nodes g.dest) g ≤ net.notes.count g) ∧
    net.arrivals ≤ 2 * net.posts := by
  intro ds alice bob carol
  refine chat_at_most_once ds (symbolicAead_ideal _) _ ?_
  simp [Network.Allowed, HonestAct]

end Zodia.App
