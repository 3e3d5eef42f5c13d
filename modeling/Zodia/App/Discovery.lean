import Zodia.App.Announces
import Zodia.Lib.Wire

/-!
# Discovery across a swarm

Many applications that announce themselves: as their network starts, every twenty seconds after
that, and in reply to the first announce of a peer. An announce is sent to the nodes that are up
when it is published and share a topic with its publisher, once for each such topic; all nodes
share the global topic. The gossip overlay may lose it on the way: it discards what is published
before it has peers, and a listener that lags behind drops what it has not read. Nodes start and
stop at any time.

## Main definitions

* `SwarmSetup` — who there is, with their keys, blobs and topics.
* `Swarm.step` — the nodes and the announces in flight.

## Main results

* `discovery_complete` — once everything is handled, the nodes that are up and lost nothing between
  them know each other, and how often they published.
-/

namespace Zodia.App

open Lib Ops

variable {F Channel Secret VerifyingKey Topic : Type}

/-- The network of an application starts and ends in no other way. -/
theorem AppState.step_network (T : FloatText F) (solarMonth : F → UInt8) (st : AppState F Channel)
    {e : AppEvent F Channel} (start : e ≠ .networkStarted) (restart : e ≠ .restart) :
    (st.step T solarMonth e).network = st.network := by
  cases e with
  | networkStarted => exact absurd rfl start
  | restart => exact absurd rfl restart
  | confirmBirth | peerChannelClosed | connectFailed => rfl
  | reconnect peerId =>
    simp only [AppState.step, AppState.reconnect]
    split <;> rfl
  | proposeConsent peerId =>
    simp only [AppState.step, AppState.proposeConsent]
    split <;> rfl
  | removeStargazer peerId =>
    simp only [AppState.step, AppState.removeStargazer]
    split <;> rfl
  | acceptConsent shown order reply =>
    simp only [AppState.step, AppState.acceptConsent]
    split
    · rfl
    · split
      · rfl
      · split <;> rfl
  | rejectConsent order =>
    simp only [AppState.step, AppState.rejectConsent]
    split <;> rfl
  | peerDiscovered peerId blob approx =>
    simp only [AppState.step, AppState.peerDiscovered]
    split <;> rfl
  | peerLeft peerId =>
    simp only [AppState.step, AppState.peerLeft]
    split <;> rfl
  | incomingChannel peerId channel =>
    simp only [AppState.step, AppState.incomingChannel]
    split
    · split <;> rfl
    · rfl
  | exchange i channel reply =>
    simp only [AppState.step, AppState.exchange]
    split <;> rfl
  | connectionComplete i =>
    simp only [AppState.step, AppState.connectionComplete]
    split <;> rfl

/-! ## The swarm -/

/-- The nodes that take part; `chartTopics` are the topics of their charts. -/
structure SwarmSetup (F Secret VerifyingKey Topic : Type) where
  floats : FloatText F
  solarMonth : F → UInt8
  scheme : SignatureScheme Secret VerifyingKey Bytes (Vector UInt8 64)
  members : List PeerId
  sk : PeerId → Secret
  blob : PeerId → AnnounceBlob
  globalTopic : Topic
  chartTopics : PeerId → List Topic
  key_matches : ∀ p, scheme.publicKey (sk p) = p

namespace SwarmSetup

variable (w : SwarmSetup F Secret VerifyingKey Topic)

/-- The signed blob of a node. -/
def announce (p : PeerId) : SignedAnnounce := .sign w.scheme (w.sk p) (w.blob p)

def topics (p : PeerId) : List Topic := w.globalTopic :: w.chartTopics p

/-- What a key signs is accepted under it. -/
def Correct : Prop := ∀ sk m, w.scheme.accepts (w.scheme.publicKey sk) m (w.scheme.sign sk m)

end SwarmSetup

/-- The nodes and the announces in flight, with the history of each node: how often it was started,
and how often it published and re-announced itself since its last start. -/
structure Swarm (F Channel : Type) where
  nodes : PeerId → GossipState F Channel
  wire : List (Envelope PeerId Bytes)
  starts : PeerId → ℕ
  published : PeerId → ℕ
  reAnnounced : PeerId → ℕ
  /-- An announce of the first to the second was lost, and the first has not published since. -/
  lost : PeerId → PeerId → Bool

inductive SwarmEvent (F Channel : Type) where
  | start (p : PeerId)
  | stop (p : PeerId)
  | reAnnounce (p : PeerId)
  /-- A listener receives the announce at place `i`. -/
  | arrive (i : ℕ)
  /-- It is lost: the overlay did not take it, or the listener that lags drops it. -/
  | lose (i : ℕ)
  /-- A node handles its next `PeerDiscovered`. -/
  | discover (p : PeerId) (approx : List String)
  /-- Anything else that happens at a node. -/
  | app (p : PeerId) (e : AppEvent F Channel)

namespace Swarm

def fresh (relayPk : Bytes32) : Swarm F Channel :=
  ⟨fun _ => .fresh relayPk, [], fun _ => 0, fun _ => 0, fun _ => 0, fun _ _ => false⟩

/-- The network of the node is up. -/
def Up (sw : Swarm F Channel) (p : PeerId) : Prop := (sw.nodes p).app.network = true

instance (sw : Swarm F Channel) (p : PeerId) : Decidable (sw.Up p) :=
  inferInstanceAs (Decidable (_ = true))

section Step

variable [DecidableEq Topic] (w : SwarmSetup F Secret VerifyingKey Topic) (sw : Swarm F Channel)

/-- The other nodes that are up and subscribed to a topic. -/
def listeners (p : PeerId) (topic : Topic) : List PeerId :=
  w.members.filter fun q => q ≠ p ∧ sw.Up q ∧ topic ∈ w.topics q

/-- Publish the announce of a node on all its topics. -/
def publish (p : PeerId) : Swarm F Channel :=
  { sw with
    wire := sw.wire ++ (w.topics p).flatMap fun topic =>
      (sw.listeners w p topic).map fun q => ⟨p, q, (w.announce p).toCbor⟩
    published := Function.update sw.published p (sw.published p + 1)
    lost := Function.update sw.lost p fun _ => false }

/-- A node takes a step of its own. -/
def node (p : PeerId) (e : GossipEvent F Channel) : Swarm F Channel :=
  { sw with
    nodes := Function.update sw.nodes p
      ((sw.nodes p).step w.floats w.solarMonth w.scheme e) }

def step (sw : Swarm F Channel) : SwarmEvent F Channel → Swarm F Channel
  | .start p =>
    let started := sw.node w p (.app .networkStarted)
    publish w
      { started with
        starts := Function.update sw.starts p (sw.starts p + 1)
        published := Function.update sw.published p 0
        reAnnounced := Function.update sw.reAnnounced p 0 } p
  | .stop p =>
    let stopped := sw.node w p (.app .restart)
    { stopped with wire := sw.wire.filter fun env => env.target ≠ p }
  | .reAnnounce p =>
    if sw.Up p then
      publish w { sw with reAnnounced := Function.update sw.reAnnounced p (sw.reAnnounced p + 1) } p
    else sw
  | .arrive i =>
    match sw.wire[i]? with
    | none => sw
    | some env => { sw.node w env.target (.gossip env.msg) with wire := sw.wire.eraseIdx i }
  | .lose i =>
    match sw.wire[i]? with
    | none => sw
    | some env =>
      { sw with
        wire := sw.wire.eraseIdx i
        lost := Function.update sw.lost env.source
          (Function.update (sw.lost env.source) env.target true) }
  | .discover p approx =>
    if (sw.nodes p).discovered = [] then sw
    else
      let handled := sw.node w p (.peerDiscovered approx)
      if sw.Up p then handled.publish w p else handled
  | .app p e => sw.node w p (.app e)

/-- A member starts while it is down; its network starts and ends in no other way. -/
def Enabled : SwarmEvent F Channel → Prop
  | .start p => p ∈ w.members ∧ ¬ sw.Up p
  | .app _ e => e ≠ .networkStarted ∧ e ≠ .restart
  | _ => True

end Step

/-! ## Who knows whom -/

/-- An announce of `q` is on its way to `p`. -/
def Flying (sw : Swarm F Channel) (q p : PeerId) : Prop :=
  ∃ env ∈ sw.wire, env.source = q ∧ env.target = p

/-- `p` has heard of `q`, or will. -/
def Hears (sw : Swarm F Channel) (p q : PeerId) : Prop := q ∈ (sw.nodes p).seen ∨ sw.Flying q p

/-- `p` has not replied to `q` yet. -/
def Owes (sw : Swarm F Channel) (p q : PeerId) : Prop :=
  q ∉ (sw.nodes p).seen ∨ ∃ a ∈ (sw.nodes p).discovered, a.pubkey = q

/-- If nothing of `q` to `p` was lost, `p` has heard of `q`, or will once `q` replies. -/
def Answered (sw : Swarm F Channel) (p q : PeerId) : Prop :=
  sw.lost q p = false → sw.Hears p q ∨ sw.Owes q p

/-- One of the two hears of the other if nothing between them was lost, and each is answered unless
one of them was restarted. -/
def Pair (sw : Swarm F Channel) (p q : PeerId) : Prop :=
  (sw.lost p q = false → sw.lost q p = false → sw.Hears p q ∨ sw.Hears q p) ∧
    (sw.starts p ≤ 1 → sw.starts q ≤ 1 → sw.Answered p q ∧ sw.Answered q p)

/-- How much a node has published, besides what it will. -/
def Within (sw : Swarm F Channel) (due : ℕ) (p : PeerId) : Prop :=
  sw.published p + (sw.nodes p).discovered.length + due ≤
    1 + sw.reAnnounced p + (sw.nodes p).seen.length

/-- The nodes and the wire hold nothing but announces of other members. -/
structure Base (w : SwarmSetup F Secret VerifyingKey Topic) (sw : Swarm F Channel) : Prop where
  member : ∀ p, sw.Up p → p ∈ w.members
  idle : ∀ p, ¬ sw.Up p → (sw.nodes p).seen = [] ∧ (sw.nodes p).discovered = []
  genuine : ∀ env ∈ sw.wire, env.msg = (w.announce env.source).toCbor ∧
    env.source ≠ env.target ∧ env.source ∈ w.members ∧ sw.Up env.target
  unborn : ∀ q, sw.starts q = 0 → ¬ sw.Up q ∧ ∀ p, ¬ sw.Hears p q
  others : ∀ p, (sw.nodes p).seen.Nodup ∧ ∀ q ∈ (sw.nodes p).seen, q ≠ p ∧ q ∈ w.members

/-- What holds in every run. -/
structure Inv (w : SwarmSetup F Secret VerifyingKey Topic) (sw : Swarm F Channel) : Prop where
  base : sw.Base w
  pairs : ∀ p q, sw.Up p → sw.Up q → p ≠ q → sw.Pair p q
  budget : ∀ p, sw.Up p → sw.Within 0 p

theorem Pair.symm {sw : Swarm F Channel} {p q : PeerId} (h : sw.Pair p q) : sw.Pair q p :=
  ⟨fun qp pq => (h.1 pq qp).symm, fun q1 p1 => (h.2 p1 q1).symm⟩

/-- A pair keeps what it has if what a node no longer hears of was lost. -/
theorem Pair.imp {sw sw' : Swarm F Channel} {p q : PeerId} (h : sw.Pair p q)
    (sp : sw'.starts p = sw.starts p) (sq : sw'.starts q = sw.starts q)
    (toP : sw'.lost q p = false → sw.lost q p = false ∧ (sw.Hears p q → sw'.Hears p q))
    (toQ : sw'.lost p q = false → sw.lost p q = false ∧ (sw.Hears q p → sw'.Hears q p))
    (owes : sw.Owes p q → sw'.Owes p q) (owes' : sw.Owes q p → sw'.Owes q p) : sw'.Pair p q := by
  refine ⟨fun pq qp => ?_, fun p1 q1 => ?_⟩
  · obtain ⟨keptQ, hearsQ⟩ := toQ pq
    obtain ⟨keptP, hearsP⟩ := toP qp
    exact (h.1 keptQ keptP).imp hearsP hearsQ
  · obtain ⟨answeredP, answeredQ⟩ := h.2 (sp ▸ p1) (sq ▸ q1)
    constructor
    · intro qp
      obtain ⟨kept, hears⟩ := toP qp
      exact (answeredP kept).imp hears owes'
    · intro pq
      obtain ⟨kept, hears⟩ := toQ pq
      exact (answeredQ kept).imp hears owes

/-- So it does if its two nodes stay and nothing between them is lost. -/
theorem Pair.mono {sw sw' : Swarm F Channel} {p q : PeerId} (h : sw.Pair p q)
    (np : sw'.nodes p = sw.nodes p) (nq : sw'.nodes q = sw.nodes q)
    (sp : sw'.starts p = sw.starts p) (sq : sw'.starts q = sw.starts q)
    (lp : sw'.lost p = sw.lost p) (lq : sw'.lost q = sw.lost q)
    (pq : sw.Flying p q → sw'.Flying p q) (qp : sw.Flying q p → sw'.Flying q p) :
    sw'.Pair p q := by
  refine h.imp sp sq (fun kept => ⟨lq ▸ kept, Or.imp ?_ qp⟩) (fun kept => ⟨lp ▸ kept, Or.imp ?_ pq⟩)
    ?_ ?_
  · rw [np]
    exact id
  · rw [nq]
    exact id
  · unfold Owes
    rw [np]
    exact id
  · unfold Owes
    rw [nq]
    exact id

/-! ## Publishing -/

section Publish

variable [DecidableEq Topic] {w : SwarmSetup F Secret VerifyingKey Topic} {sw : Swarm F Channel}
  {p : PeerId}

theorem mem_publish_wire {env : Envelope PeerId Bytes} :
    env ∈ (sw.publish w p).wire ↔ env ∈ sw.wire ∨ ∃ topic ∈ w.topics p, ∃ q,
      (q ∈ w.members ∧ q ≠ p ∧ sw.Up q ∧ topic ∈ w.topics q) ∧
        ⟨p, q, (w.announce p).toCbor⟩ = env := by
  simp only [publish, listeners, List.mem_append, List.mem_flatMap, List.mem_map, List.mem_filter,
    decide_eq_true_eq]

/-- The global topic reaches everybody. -/
theorem flying_publish {q r : PeerId} :
    (sw.publish w p).Flying q r ↔
      sw.Flying q r ∨ (q = p ∧ r ∈ w.members ∧ r ≠ p ∧ sw.Up r) := by
  unfold Flying
  constructor
  · rintro ⟨env, mem, rfl, rfl⟩
    rcases mem_publish_wire.1 mem with old | ⟨topic, -, q, ⟨member, ne, up, -⟩, rfl⟩
    · exact .inl ⟨env, old, rfl, rfl⟩
    · exact .inr ⟨rfl, member, ne, up⟩
  · rintro (⟨env, old, rfl, rfl⟩ | ⟨rfl, member, ne, up⟩)
    · exact ⟨env, mem_publish_wire.2 (.inl old), rfl, rfl⟩
    · refine ⟨⟨q, r, (w.announce q).toCbor⟩, mem_publish_wire.2 (.inr ?_), rfl, rfl⟩
      exact ⟨w.globalTopic, List.mem_cons_self, r, ⟨member, ne, up, List.mem_cons_self⟩, rfl⟩

theorem Base.publish (h : sw.Base w) (up : sw.Up p) : (sw.publish w p).Base w where
  member := h.member
  idle := h.idle
  genuine env mem := by
    rcases mem_publish_wire.1 mem with old | ⟨topic, -, q, ⟨-, ne, upq, -⟩, rfl⟩
    · exact h.genuine env old
    · exact ⟨rfl, ne.symm, h.member p up, upq⟩
  unborn q never := by
    obtain ⟨down, unheard⟩ := h.unborn q never
    refine ⟨down, fun r hears => ?_⟩
    rcases hears with seen | flying
    · exact unheard r (.inl seen)
    · rcases flying_publish.1 flying with old | ⟨rfl, -⟩
      · exact unheard r (.inr old)
      · exact down up
  others := h.others

/-- Publishing completes the pairs of its node: everybody will hear of it. -/
theorem Inv.publish (base : sw.Base w) (up : sw.Up p)
    (pairs : ∀ q r, sw.Up q → sw.Up r → q ≠ r → q ≠ p → r ≠ p → sw.Pair q r)
    (reply : ∀ q, sw.Up q → q ≠ p → sw.starts p ≤ 1 → sw.starts q ≤ 1 → sw.Answered p q)
    (budget : ∀ q, sw.Up q → q ≠ p → sw.Within 0 q) (own : sw.Within 1 p) :
    (sw.publish w p).Inv w := by
  have own_pair (q : PeerId) (upq : sw.Up q) (ne : q ≠ p) : (sw.publish w p).Pair p q := by
    have heard : (sw.publish w p).Hears q p :=
      .inr (flying_publish.2 (.inr ⟨rfl, base.member q upq, ne, upq⟩))
    refine ⟨fun _ _ => .inr heard, fun p1 q1 => ⟨fun kept => ?_, fun _ => .inl heard⟩⟩
    have kept' : sw.lost q p = false := by
      simpa only [Swarm.publish, Function.update_of_ne ne] using kept
    rcases reply q upq ne p1 q1 kept' with (seen | flying) | owes
    · exact .inl (.inl seen)
    · exact .inl (.inr (flying_publish.2 (.inl flying)))
    · exact .inr owes
  refine ⟨base.publish up, fun q r upq upr ne => ?_, fun q upq => ?_⟩
  · by_cases hq : q = p
    · subst hq
      exact own_pair r upr ne.symm
    · by_cases hr : r = p
      · subst hr
        exact (own_pair q upq ne).symm
      · exact (pairs q r upq upr ne hq hr).mono rfl rfl rfl rfl
          (Function.update_of_ne hq _ _) (Function.update_of_ne hr _ _)
          (fun flying => flying_publish.2 (.inl flying))
          (fun flying => flying_publish.2 (.inl flying))
  · by_cases hq : q = p
    · subst hq
      have room := own
      unfold Within at room ⊢
      simp only [Swarm.publish, Function.update_self]
      omega
    · have room := budget q upq hq
      unfold Within at room ⊢
      simpa only [Swarm.publish, Function.update_of_ne hq] using room

end Publish

/-! ## Steps -/

section Steps

variable {w : SwarmSetup F Secret VerifyingKey Topic} {sw : Swarm F Channel}

/-- What a node knows, as far as discovery goes. -/
structure SameNode (s s' : GossipState F Channel) : Prop where
  network : s'.app.network = s.app.network
  seen : s'.seen = s.seen
  discovered : s'.discovered = s.discovered

/-- Nothing else matters. -/
theorem Inv.of_same {sw' : Swarm F Channel} (h : sw.Inv w)
    (nodes : ∀ p, SameNode (sw.nodes p) (sw'.nodes p)) (wire : sw'.wire = sw.wire)
    (starts : sw'.starts = sw.starts) (published : sw'.published = sw.published)
    (reAnnounced : sw'.reAnnounced = sw.reAnnounced) (lost : sw'.lost = sw.lost) :
    sw'.Inv w := by
  have up (p : PeerId) : sw'.Up p ↔ sw.Up p := by
    unfold Up
    rw [(nodes p).network]
  have flying (p q : PeerId) : sw'.Flying p q ↔ sw.Flying p q := by
    unfold Flying
    rw [wire]
  have hears (p q : PeerId) : sw'.Hears p q ↔ sw.Hears p q := by
    unfold Hears
    rw [(nodes p).seen, flying]
  have owes (p q : PeerId) : sw'.Owes p q ↔ sw.Owes p q := by
    unfold Owes
    rw [(nodes p).seen, (nodes p).discovered]
  refine ⟨⟨?_, ?_, ?_, ?_, ?_⟩, ?_, ?_⟩
  · exact fun p hp => h.base.member p ((up p).1 hp)
  · intro p down
    rw [(nodes p).seen, (nodes p).discovered]
    exact h.base.idle p (mt (up p).2 down)
  · intro env mem
    obtain ⟨msg, ne, member, target⟩ := h.base.genuine env (wire ▸ mem)
    exact ⟨msg, ne, member, (up _).2 target⟩
  · intro q never
    obtain ⟨down, unheard⟩ := h.base.unborn q (starts ▸ never)
    exact ⟨mt (up q).1 down, fun p => mt (hears p q).1 (unheard p)⟩
  · intro p
    rw [(nodes p).seen]
    exact h.base.others p
  · intro p q hp hq ne
    have pair := h.pairs p q ((up p).1 hp) ((up q).1 hq) ne
    simpa only [Pair, Answered, hears, owes, starts, lost] using pair
  · intro p hp
    have room := h.budget p ((up p).1 hp)
    unfold Within at room ⊢
    rwa [published, reAnnounced, (nodes p).seen, (nodes p).discovered]

theorem Inv.app (h : sw.Inv w) (p : PeerId) {e : AppEvent F Channel} (start : e ≠ .networkStarted)
    (restart : e ≠ .restart) : (sw.node w p (.app e)).Inv w := by
  refine h.of_same (fun q => ?_) rfl rfl rfl rfl rfl
  by_cases own : q = p
  · subst own
    have after : (sw.nodes q).step w.floats w.solarMonth w.scheme (.app e) =
        { sw.nodes q with app := (sw.nodes q).app.step w.floats w.solarMonth e } := by
      cases e with
      | networkStarted => exact absurd rfl start
      | restart => exact absurd rfl restart
      | _ => rfl
    simp only [node, Function.update_self, after]
    exact ⟨AppState.step_network _ _ _ start restart, rfl, rfl⟩
  · simp only [node, Function.update_of_ne own]
    exact ⟨rfl, rfl, rfl⟩

/-- A node that is up takes in an announce, and passes it on if it is the first of its peer. -/
theorem step_announce (correct : w.Correct) {s : GossipState F Channel}
    (network : s.app.network = true) (q : PeerId) :
    let s' := s.step w.floats w.solarMonth w.scheme (.gossip (w.announce q).toCbor)
    s'.app = s.app ∧
      (q ∈ s.seen ∧ s'.seen = s.seen ∧ s'.discovered = s.discovered ∨
        q ∉ s.seen ∧ s'.seen = q :: s.seen ∧ s'.discovered = s.discovered ++ [w.announce q]) := by
  intro s'
  have found : GossipState.received w.scheme s (w.announce q).toCbor = some (w.announce q) :=
    GossipState.received_toCbor network (SignedAnnounce.verify_sign w.scheme correct _ _)
  have key : (w.announce q).pubkey = q := w.key_matches q
  by_cases known : q ∈ s.seen
  · have after : s' = _ := GossipState.step_gossip_known found (by rwa [key])
    rw [after]
    exact ⟨rfl, .inl ⟨known, rfl, rfl⟩⟩
  · have after : s' = _ := GossipState.step_gossip_new found (by rwa [key])
    rw [after]
    exact ⟨rfl, .inr ⟨known, by rw [key], rfl⟩⟩

variable [DecidableEq Topic]

theorem Inv.reAnnounce (h : sw.Inv w) (p : PeerId) : (sw.step w (.reAnnounce p)).Inv w := by
  simp only [step]
  split_ifs with up
  · refine Inv.publish ⟨h.base.member, h.base.idle, h.base.genuine, h.base.unborn, h.base.others⟩
      up (fun q r hq hr ne _ _ => h.pairs q r hq hr ne) (fun q hq ne p1 q1 => ?_)
      (fun q hq ne => ?_) ?_
    · exact ((h.pairs p q up hq ne.symm).2 p1 q1).1
    · have room := h.budget q hq
      unfold Within at room ⊢
      simpa only [Function.update_of_ne ne] using room
    · have room := h.budget p up
      unfold Within at room ⊢
      simp only [Function.update_self]
      omega
  · exact h

theorem Inv.start (h : sw.Inv w) {p : PeerId} (member : p ∈ w.members) (down : ¬ sw.Up p) :
    (sw.step w (.start p)).Inv w := by
  obtain ⟨noSeen, noQueue⟩ := h.base.idle p down
  -- The node right before it publishes.
  have own : (Function.update sw.nodes p
      ((sw.nodes p).step w.floats w.solarMonth w.scheme (.app .networkStarted))) p =
        ⟨(sw.nodes p).app.step w.floats w.solarMonth .networkStarted, [],
          (sw.nodes p).discovered, []⟩ := Function.update_self ..
  refine Inv.publish ⟨fun q up => ?_, fun q downq => ?_, fun env mem => ?_, fun q never => ?_,
    fun q => ?_⟩ ?_ (fun q r hq hr ne nq nr => ?_) (fun q hq ne p1 q1 => ?_) (fun q hq ne => ?_) ?_
  · by_cases same : q = p
    · exact same ▸ member
    · exact h.base.member q (by simpa only [Up, node, Function.update_of_ne same] using up)
  · by_cases same : q = p
    · subst same
      refine absurd ?_ downq
      simp only [Up, node, own, AppState.step]
    · simp only [node, Function.update_of_ne same]
      exact h.base.idle q (by simpa only [Up, node, Function.update_of_ne same] using downq)
  · obtain ⟨msg, ne, source, target⟩ := h.base.genuine env mem
    have other : env.target ≠ p := fun same => down (same ▸ target)
    refine ⟨msg, ne, source, ?_⟩
    simpa only [Up, node, Function.update_of_ne other] using target
  · have other : q ≠ p := by
      rintro rfl
      simp at never
    obtain ⟨downq, unheard⟩ := h.base.unborn q (by simpa [Function.update_of_ne other] using never)
    refine ⟨by simpa only [Up, node, Function.update_of_ne other] using downq, fun r hears => ?_⟩
    refine unheard r (hears.imp (fun seen => ?_) id)
    by_cases same : r = p
    · subst same
      simp only [node, own] at seen
      cases seen
    · simpa only [node, Function.update_of_ne same] using seen
  · by_cases same : q = p
    · subst same
      simp only [node, own]
      simp
    · simpa only [node, Function.update_of_ne same] using h.base.others q
  · simp only [Up, node, own, AppState.step]
  · refine (h.pairs q r ?_ ?_ ne).mono ?_ ?_ ?_ ?_ rfl rfl id id
    · simpa only [Up, node, Function.update_of_ne nq] using hq
    · simpa only [Up, node, Function.update_of_ne nr] using hr
    · simp only [node, Function.update_of_ne nq]
    · simp only [node, Function.update_of_ne nr]
    · simp only [Function.update_of_ne nq]
    · simp only [Function.update_of_ne nr]
  · -- Nobody has heard of a node that starts for the first time.
    have first : sw.starts p = 0 := by simpa using p1
    refine fun _ => .inr (.inl fun seen => (h.base.unborn p first).2 q (.inl ?_))
    simpa only [node, Function.update_of_ne ne] using seen
  · have room := h.budget q (by simpa only [Up, node, Function.update_of_ne ne] using hq)
    unfold Within at room ⊢
    simpa only [node, Function.update_of_ne ne] using room
  · unfold Within
    simp only [node, own, Function.update_self, noQueue, List.length_nil]
    omega

theorem Inv.stop (h : sw.Inv w) (p : PeerId) : (sw.step w (.stop p)).Inv w := by
  have own : (Function.update sw.nodes p
      ((sw.nodes p).step w.floats w.solarMonth w.scheme (.app .restart))) p =
        ⟨(sw.nodes p).app.step w.floats w.solarMonth .restart, [], [], []⟩ :=
    Function.update_self ..
  have other {q : PeerId} (up : (sw.step w (.stop p)).Up q) : q ≠ p := by
    rintro rfl
    simp only [Up, step, node, own, AppState.step, AppState.restart] at up
    cases up
  have was {q : PeerId} (up : (sw.step w (.stop p)).Up q) : sw.Up q := by
    simpa only [Up, step, node, Function.update_of_ne (other up)] using up
  have fewer {q r : PeerId} (flying : (sw.step w (.stop p)).Flying q r) : sw.Flying q r := by
    obtain ⟨env, mem, source, target⟩ := flying
    exact ⟨env, (List.mem_filter.1 mem).1, source, target⟩
  have kept {q r : PeerId} (ne : r ≠ p) (flying : sw.Flying q r) :
      (sw.step w (.stop p)).Flying q r := by
    obtain ⟨env, mem, source, target⟩ := flying
    exact ⟨env, List.mem_filter.2 ⟨mem, by simpa [target] using ne⟩, source, target⟩
  refine ⟨⟨fun q up => h.base.member q (was up), fun q down => ?_, fun env mem => ?_,
    fun q never => ?_, fun q => ?_⟩, fun q r hq hr ne => ?_, fun q hq => ?_⟩
  · by_cases same : q = p
    · subst same
      simp only [step, node, own]
      simp
    · simp only [step, node, Function.update_of_ne same]
      exact h.base.idle q (by simpa only [Up, step, node, Function.update_of_ne same] using down)
  · obtain ⟨old, away⟩ := List.mem_filter.1 mem
    have ne' : env.target ≠ p := by simpa using away
    obtain ⟨msg, ne, source, target⟩ := h.base.genuine env old
    exact ⟨msg, ne, source, by simpa only [Up, step, node, Function.update_of_ne ne'] using target⟩
  · obtain ⟨down, unheard⟩ := h.base.unborn q never
    refine ⟨fun up => down (was up), fun r hears => unheard r (hears.imp (fun seen => ?_) fewer)⟩
    by_cases same : r = p
    · subst same
      simp only [step, node, own] at seen
      cases seen
    · simpa only [step, node, Function.update_of_ne same] using seen
  · by_cases same : q = p
    · subst same
      simp only [step, node, own]
      simp
    · simpa only [step, node, Function.update_of_ne same] using h.base.others q
  · refine (h.pairs q r (was hq) (was hr) ne).mono ?_ ?_ rfl rfl rfl rfl (kept (other hr))
      (kept (other hq))
    · simp only [step, node, Function.update_of_ne (other hq)]
    · simp only [step, node, Function.update_of_ne (other hr)]
  · have room := h.budget q (was hq)
    unfold Within at room ⊢
    simpa only [step, node, Function.update_of_ne (other hq)] using room

theorem Inv.arrive (correct : w.Correct) (h : sw.Inv w) (i : ℕ) :
    (sw.step w (.arrive i)).Inv w := by
  cases found : sw.wire[i]? with
  | none =>
    simp only [step, found]
    exact h
  | some env =>
    have parts := perm_cons_eraseIdx found
    obtain ⟨q, p, msg⟩ := env
    obtain ⟨cbor, ne, source, upp⟩ := h.base.genuine _ (parts.mem_iff.2 List.mem_cons_self)
    dsimp only at cbor ne source upp
    subst cbor
    obtain ⟨app, taken⟩ := step_announce correct upp q
    generalize after : sw.step w (.arrive i) = sw'
    simp only [step, found] at after
    generalize node : (sw.nodes p).step w.floats w.solarMonth w.scheme
      (.gossip (w.announce q).toCbor) = s' at app taken
    have nodes : sw'.nodes = Function.update sw.nodes p s' := by rw [← after, ← node]; rfl
    have own : sw'.nodes p = s' := by rw [nodes, Function.update_self]
    have other {r : PeerId} (hr : r ≠ p) : sw'.nodes r = sw.nodes r := by
      rw [nodes, Function.update_of_ne hr]
    have wire : sw'.wire = sw.wire.eraseIdx i := by rw [← after]
    have starts : sw'.starts = sw.starts := by rw [← after]; rfl
    have lost : sw'.lost = sw.lost := by rw [← after]; rfl
    have up (r : PeerId) : sw'.Up r ↔ sw.Up r := by
      by_cases hr : r = p
      · subst hr
        unfold Up
        rw [own, app]
      · unfold Up
        rw [other hr]
    -- What a node has heard of or owes stays; the announce that arrived is one it has heard of.
    have fewer {a b : PeerId} (flying : sw'.Flying a b) : sw.Flying a b := by
      obtain ⟨env, mem, src, tgt⟩ := flying
      exact ⟨env, parts.mem_iff.2 (List.mem_cons_of_mem _ (wire ▸ mem)), src, tgt⟩
    have hears {a b : PeerId} (heard : sw.Hears a b) : sw'.Hears a b := by
      by_cases first : a = p ∧ b = q
      · obtain ⟨rfl, rfl⟩ := first
        refine .inl ?_
        rw [own]
        rcases taken with ⟨known, seen, -⟩ | ⟨-, seen, -⟩
        · rwa [seen]
        · rw [seen]
          exact List.mem_cons_self
      · rcases heard with known | ⟨env, mem, rfl, rfl⟩
        · refine .inl ?_
          by_cases hr : a = p
          · subst hr
            rw [own]
            rcases taken with ⟨-, seen, -⟩ | ⟨-, seen, -⟩
            · rwa [seen]
            · rw [seen]
              exact List.mem_cons_of_mem q known
          · rwa [other hr]
        · refine .inr ⟨env, ?_, rfl, rfl⟩
          rcases List.mem_cons.1 (parts.mem_iff.1 mem) with rfl | rest
          · exact absurd ⟨rfl, rfl⟩ first
          · rwa [wire]
    have owes {a b : PeerId} (due : sw.Owes a b) : sw'.Owes a b := by
      unfold Owes at due ⊢
      by_cases hr : a = p
      · subst hr
        rw [own]
        rcases taken with ⟨-, seen, queue⟩ | ⟨-, seen, queue⟩
        · rwa [seen, queue]
        · rw [seen, queue]
          by_cases hb : b = q
          · exact .inr ⟨w.announce q, by simp, hb ▸ w.key_matches q⟩
          · refine due.imp (fun new => ?_) fun ⟨x, mem, key⟩ => ⟨x, List.mem_append_left _ mem, key⟩
            simp [hb, new]
      · rwa [other hr]
    refine ⟨⟨fun r hr => h.base.member r ((up r).1 hr), fun r down => ?_, fun env mem => ?_,
      fun r never => ?_, fun r => ?_⟩, fun a b ha hb ne => ?_, fun r hr => ?_⟩
    · have downr := mt (up r).2 down
      have hr : r ≠ p := fun same => downr (same ▸ upp)
      rw [other hr]
      exact h.base.idle r downr
    · obtain ⟨cbor, ne, member, target⟩ :=
        h.base.genuine env (parts.mem_iff.2 (List.mem_cons_of_mem _ (wire ▸ mem)))
      exact ⟨cbor, ne, member, (up _).2 target⟩
    · obtain ⟨down, unheard⟩ := h.base.unborn r (starts ▸ never)
      refine ⟨mt (up r).1 down, fun a heard => ?_⟩
      rcases heard with seen' | flying
      · by_cases hr : a = p
        · subst hr
          rw [own] at seen'
          rcases taken with ⟨-, seen, -⟩ | ⟨-, seen, -⟩
          · exact unheard a (.inl (seen ▸ seen'))
          · rw [seen] at seen'
            rcases List.mem_cons.1 seen' with rfl | old
            · exact unheard a (.inr ⟨_, parts.mem_iff.2 List.mem_cons_self, rfl, rfl⟩)
            · exact unheard a (.inl old)
        · rw [other hr] at seen'
          exact unheard a (.inl seen')
      · exact unheard a (.inr (fewer flying))
    · by_cases hr : r = p
      · subst hr
        obtain ⟨nodup, known⟩ := h.base.others r
        rw [own]
        rcases taken with ⟨-, seen, -⟩ | ⟨new, seen, -⟩
        · rw [seen]
          exact ⟨nodup, known⟩
        · rw [seen]
          exact ⟨List.nodup_cons.2 ⟨new, nodup⟩,
            List.forall_mem_cons.2 ⟨⟨ne, source⟩, known⟩⟩
      · rw [other hr]
        exact h.base.others r
    · exact (h.pairs a b ((up a).1 ha) ((up b).1 hb) ne).imp (by rw [starts]) (by rw [starts])
        (fun kept => ⟨lost ▸ kept, hears⟩) (fun kept => ⟨lost ▸ kept, hears⟩) owes owes
    · have room := h.budget r ((up r).1 hr)
      have published : sw'.published = sw.published := by rw [← after]; rfl
      have reAnnounced : sw'.reAnnounced = sw.reAnnounced := by rw [← after]; rfl
      unfold Within at room ⊢
      rw [published, reAnnounced]
      by_cases same : r = p
      · subst same
        rw [own]
        rcases taken with ⟨-, seen, queue⟩ | ⟨-, seen, queue⟩
        · rwa [seen, queue]
        · rw [seen, queue, List.length_append, List.length_singleton, List.length_cons]
          omega
      · rwa [other same]

/-- A loss frees the two nodes it is between from knowing each other. -/
theorem Inv.lose (h : sw.Inv w) (i : ℕ) : (sw.step w (.lose i)).Inv w := by
  cases found : sw.wire[i]? with
  | none =>
    simp only [step, found]
    exact h
  | some env =>
    have parts := perm_cons_eraseIdx found
    simp only [step, found]
    -- Less is on its way, but for two nodes without a loss between them as much as before.
    have fewer {a b : PeerId} (flying : ∃ e ∈ sw.wire.eraseIdx i, e.source = a ∧ e.target = b) :
        sw.Flying a b :=
      let ⟨e, rest, ends⟩ := flying
      ⟨e, parts.mem_iff.2 (List.mem_cons_of_mem _ rest), ends⟩
    have kept {a b : PeerId}
        (clean : Function.update sw.lost env.source
          (Function.update (sw.lost env.source) env.target true) a b = false) :
        sw.lost a b = false ∧
          (sw.Flying a b → ∃ e ∈ sw.wire.eraseIdx i, e.source = a ∧ e.target = b) := by
      have other : ¬ (env.source = a ∧ env.target = b) := by
        rintro ⟨rfl, rfl⟩
        simp at clean
      refine ⟨?_, fun ⟨e, flying, ends⟩ => ⟨e, ?_, ends⟩⟩
      · by_cases same : a = env.source
        · subst same
          rwa [Function.update_self, Function.update_of_ne fun eq => other ⟨rfl, eq.symm⟩] at clean
        · rwa [Function.update_of_ne same] at clean
      · rcases List.mem_cons.1 (parts.mem_iff.1 flying) with rfl | rest
        · exact absurd ends other
        · exact rest
    refine ⟨⟨h.base.member, h.base.idle, fun e mem => ?_, fun q never => ?_, h.base.others⟩,
      fun p q hp hq ne => ?_, h.budget⟩
    · exact h.base.genuine e (parts.mem_iff.2 (List.mem_cons_of_mem _ mem))
    · obtain ⟨down, unheard⟩ := h.base.unborn q never
      exact ⟨down, fun p hears => unheard p (hears.imp id fewer)⟩
    · refine (h.pairs p q hp hq ne).imp rfl rfl (fun clean => ?_) (fun clean => ?_) id id
      · obtain ⟨old, flying⟩ := kept clean
        exact ⟨old, Or.imp id flying⟩
      · obtain ⟨old, flying⟩ := kept clean
        exact ⟨old, Or.imp id flying⟩

theorem Inv.discover (h : sw.Inv w) (p : PeerId) (approx : List String) :
    (sw.step w (.discover p approx)).Inv w := by
  cases queue : (sw.nodes p).discovered with
  | nil =>
    simp only [step, queue, if_true]
    exact h
  | cons a rest =>
    have up : sw.Up p := by
      by_contra down
      rw [(h.base.idle p down).2] at queue
      cases queue
    simp only [step, queue, List.cons_ne_nil, if_false, if_pos up]
    generalize handled : sw.node w p (.peerDiscovered approx) = sw'
    have own : sw'.nodes p = ⟨(sw.nodes p).app.peerDiscovered a.pubkey a.toAnnounceBlob approx,
        (sw.nodes p).seen, rest, (sw.nodes p).heard⟩ := by
      rw [← handled]
      simp only [node, Function.update_self, GossipState.step, queue]
    have other {r : PeerId} (hr : r ≠ p) : sw'.nodes r = sw.nodes r := by
      rw [← handled]
      exact Function.update_of_ne hr _ _
    have wire : sw'.wire = sw.wire := by rw [← handled]; rfl
    have starts : sw'.starts = sw.starts := by rw [← handled]; rfl
    have published : sw'.published = sw.published := by rw [← handled]; rfl
    have reAnnounced : sw'.reAnnounced = sw.reAnnounced := by rw [← handled]; rfl
    have lost : sw'.lost = sw.lost := by rw [← handled]; rfl
    have seen (r : PeerId) : (sw'.nodes r).seen = (sw.nodes r).seen := by
      by_cases hr : r = p
      · subst hr
        rw [own]
      · rw [other hr]
    have same (r : PeerId) : sw'.Up r ↔ sw.Up r := by
      by_cases hr : r = p
      · subst hr
        have network := AppState.step_network w.floats w.solarMonth (sw.nodes r).app
          (e := .peerDiscovered a.pubkey a.toAnnounceBlob approx) (by simp) (by simp)
        unfold Up
        rw [own]
        exact iff_of_eq (congrArg (· = true) network)
      · unfold Up
        rw [other hr]
    have hears (r q : PeerId) : sw'.Hears r q ↔ sw.Hears r q := by
      unfold Hears Flying
      rw [seen, wire]
    refine Inv.publish ⟨fun r hr => h.base.member r ((same r).1 hr), fun r down => ?_,
      fun env mem => ?_, fun r never => ?_, fun r => by rw [seen]; exact h.base.others r⟩
      ((same p).2 up) (fun q r hq hr ne nq nr => ?_) (fun q hq ne p1 q1 => ?_)
      (fun q hq ne => ?_) ?_
    · have downr := mt (same r).2 down
      have hr : r ≠ p := fun eq => downr (eq ▸ up)
      rw [other hr]
      exact h.base.idle r downr
    · obtain ⟨cbor, ne, member, target⟩ := h.base.genuine env (wire ▸ mem)
      exact ⟨cbor, ne, member, (same _).2 target⟩
    · obtain ⟨down, unheard⟩ := h.base.unborn r (starts ▸ never)
      exact ⟨mt (same r).1 down, fun q => mt (hears q r).1 (unheard q)⟩
    · refine (h.pairs q r ((same q).1 hq) ((same r).1 hr) ne).mono (other nq) (other nr)
        (by rw [starts]) (by rw [starts]) (by rw [lost]) (by rw [lost]) ?_ ?_
      · unfold Flying
        rw [wire]
        exact id
      · unfold Flying
        rw [wire]
        exact id
    · -- The peer of the event needs no other reply than this one.
      have owes (due : sw.Owes q p) : sw'.Owes q p := by
        unfold Owes
        rwa [other ne]
      have answered := ((h.pairs p q up ((same q).1 hq) ne.symm).2 (starts ▸ p1) (starts ▸ q1)).1
      exact fun kept => (answered (lost ▸ kept)).imp (hears p q).2 owes
    · have room := h.budget q ((same q).1 hq)
      unfold Within at room ⊢
      rwa [other ne, published, reAnnounced]
    · have room := h.budget p up
      unfold Within at room ⊢
      rw [queue, List.length_cons] at room
      rw [own, published, reAnnounced]
      dsimp only
      omega

end Steps

theorem inv_fresh (w : SwarmSetup F Secret VerifyingKey Topic) (relayPk : Bytes32) :
    (fresh relayPk : Swarm F Channel).Inv w := by
  have down (p : PeerId) : ¬ (fresh relayPk : Swarm F Channel).Up p := by
    simp [Up, fresh, GossipState.fresh, AppState.fresh]
  refine ⟨⟨fun p up => absurd up (down p), fun p _ => ⟨rfl, rfl⟩, fun env mem => ?_, fun q _ => ?_,
    fun p => ?_⟩, fun p q up => absurd up (down p), fun p up => absurd up (down p)⟩
  · cases mem
  · refine ⟨down q, fun p hears => ?_⟩
    rcases hears with seen | ⟨env, mem, -⟩
    · cases seen
    · cases mem
  · simp [fresh, GossipState.fresh]

variable [DecidableEq Topic]

theorem Inv.step {w : SwarmSetup F Secret VerifyingKey Topic} {sw : Swarm F Channel}
    (correct : w.Correct) (h : sw.Inv w) {e : SwarmEvent F Channel} (enabled : sw.Enabled w e) :
    (sw.step w e).Inv w := by
  cases e with
  | start p => exact h.start enabled.1 enabled.2
  | stop p => exact h.stop p
  | reAnnounce p => exact h.reAnnounce p
  | arrive i => exact h.arrive correct i
  | lose i => exact h.lose i
  | discover p approx => exact h.discover p approx
  | app p e => exact h.app p enabled.1 enabled.2

end Swarm

/-! ## Runs -/

/-- In every run of the swarm: once no announce is in flight and every `PeerDiscovered` is handled,
of any two nodes that are up, and neither of which lost the announces the other published last, one
knows the other, and each knows the other if neither was restarted. And since its start a node has
published at most once for each member, besides its timer. -/
theorem discovery_complete [DecidableEq Topic] (w : SwarmSetup F Secret VerifyingKey Topic)
    (correct : w.Correct) (relayPk : Bytes32) (es : List (SwarmEvent F Channel))
    (enabled : Along (Swarm.step w) (Swarm.Enabled w) (.fresh relayPk) es) :
    let sw := exec (Swarm.step w) (.fresh relayPk) es
    (sw.wire = [] → (∀ p, (sw.nodes p).discovered = []) → ∀ p q, sw.Up p → sw.Up q → p ≠ q →
      sw.lost p q = false → sw.lost q p = false →
      (q ∈ (sw.nodes p).seen ∨ p ∈ (sw.nodes q).seen) ∧
      (sw.starts p ≤ 1 → sw.starts q ≤ 1 → q ∈ (sw.nodes p).seen ∧ p ∈ (sw.nodes q).seen)) ∧
    ∀ p, sw.Up p → sw.published p ≤ sw.reAnnounced p + w.members.length := by
  intro sw
  have inv : sw.Inv w :=
    exec_invariant (fun _ _ h ok => h.step correct ok) (Swarm.inv_fresh w relayPk) enabled
  constructor
  · intro silent handled p q up upq ne keptQ keptP
    have heard {a b : PeerId} (hears : sw.Hears a b) : b ∈ (sw.nodes a).seen := by
      rcases hears with seen | ⟨env, mem, -⟩
      · exact seen
      · rw [silent] at mem
        cases mem
    have paid {a b : PeerId} (owes : sw.Owes a b) : b ∉ (sw.nodes a).seen := by
      rcases owes with unseen | ⟨x, mem, -⟩
      · exact unseen
      · rw [handled a] at mem
        cases mem
    obtain ⟨one, both⟩ := inv.pairs p q up upq ne
    have known := (one keptQ keptP).imp heard heard
    refine ⟨known, fun p1 q1 => ?_⟩
    obtain ⟨answeredP, answeredQ⟩ := both p1 q1
    -- Who knows the other has replied to it.
    constructor
    · rcases answeredP keptP with hears | owes
      · exact heard hears
      · exact known.resolve_right (paid owes)
    · rcases answeredQ keptQ with hears | owes
      · exact heard hears
      · exact known.resolve_left (paid owes)
  · intro p up
    obtain ⟨nodup, others⟩ := inv.base.others p
    have room := inv.budget p up
    have few : (p :: (sw.nodes p).seen).length ≤ w.members.length := by
      refine (List.subperm_of_subset
        (List.nodup_cons.2 ⟨fun self => (others p self).1 rfl, nodup⟩) ?_).length_le
      exact List.cons_subset.2 ⟨inv.base.member p up, fun q mem => (others q mem).2⟩
    unfold Swarm.Within at room
    rw [List.length_cons] at few
    omega

section Two

/-- Two nodes that accept every signature. -/
def twoNodes : SwarmSetup ℕ Bytes32 Bytes32 ℕ :=
  ⟨decimalText, fun _ => 1, ⟨id, fun _ _ => Vector.replicate 64 0, some, fun _ _ _ => true⟩,
    [Vector.replicate 32 1, Vector.replicate 32 2], id, fun _ => ⟨"u4p", 6⟩, 0, fun _ => [],
    fun _ => rfl⟩

/-- The second starts after the first one has announced itself, and what it announces is lost; its
timer makes up for it. -/
def lossyStart : List (SwarmEvent ℕ Unit) :=
  [.start (Vector.replicate 32 1), .start (Vector.replicate 32 2), .lose 0,
    .reAnnounce (Vector.replicate 32 2), .arrive 0, .discover (Vector.replicate 32 1) [],
    .arrive 0, .discover (Vector.replicate 32 2) [], .arrive 0]

theorem lossyStart_enabled :
    Along (Swarm.step twoNodes) (Swarm.Enabled twoNodes) (.fresh (Vector.replicate 32 9))
      lossyStart := by
  refine ⟨⟨?_, ?_⟩, ⟨?_, ?_⟩, trivial, trivial, trivial, trivial, trivial, trivial, trivial,
    trivial⟩
  · exact List.mem_cons_self
  · exact Bool.false_ne_true
  · exact List.mem_cons_of_mem _ List.mem_cons_self
  · decide +kernel

/-- Each hears the other. -/
theorem discovery_complete_two :
    let p : PeerId := Vector.replicate 32 1
    let q : PeerId := Vector.replicate 32 2
    let sw := exec (Swarm.step twoNodes) (.fresh (Vector.replicate 32 9)) lossyStart
    sw.wire = [] ∧ q ∈ (sw.nodes p).seen ∧ p ∈ (sw.nodes q).seen ∧
      sw.published q ≤ sw.reAnnounced q + 2 := by
  intro p q sw
  have silent : sw.wire = [] := by decide +kernel
  have upP : sw.Up p := by decide +kernel
  have upQ : sw.Up q := by decide +kernel
  have handledP : (sw.nodes p).discovered = [] := by decide +kernel
  have handledQ : (sw.nodes q).discovered = [] := by decide +kernel
  have lost : sw.lost p q = false ∧ sw.lost q p = false := by decide +kernel
  have starts : sw.starts p ≤ 1 ∧ sw.starts q ≤ 1 := by decide +kernel
  clear_value (run : sw = _)
  have inv : sw.Inv twoNodes := run ▸ exec_invariant
    (fun _ _ h ok => h.step (fun _ _ => rfl) ok) (Swarm.inv_fresh twoNodes _) lossyStart_enabled
  have handled (r : PeerId) : (sw.nodes r).discovered = [] := by
    by_cases up : sw.Up r
    · obtain rfl | rfl : r = p ∨ r = q := by
        simpa [twoNodes, p, q] using inv.base.member r up
      · exact handledP
      · exact handledQ
    · exact (inv.base.idle r up).2
  obtain ⟨meet, within⟩ := discovery_complete twoNodes (fun _ _ => rfl) _ _ lossyStart_enabled
  rw [← run] at meet within
  obtain ⟨-, both⟩ := meet silent handled p q upP upQ (by decide) lost.1 lost.2
  obtain ⟨hearsQ, hearsP⟩ := both starts.1 starts.2
  exact ⟨silent, hearsQ, hearsP, within q upQ⟩

end Two

end Zodia.App
