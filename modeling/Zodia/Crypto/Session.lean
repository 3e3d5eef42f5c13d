import Zodia.Crypto.Ratchet
import Zodia.Lib.Run
import Mathlib.Logic.Function.Basic

/-!
# Two sides of one session

The initiator and the responder of a session, each with its `SessionRatchet`, and
the frames in flight to each of them. Frames are delivered unmodified and in the
order they were sent; the interleaving of the two directions is arbitrary. Each
delivery records the plaintext that was encrypted beside what decryption returned.

The context strings name the role of the side and not the direction of the chain,
so no send chain has the context of the chain that receives its frames.
-/

namespace Zodia.Crypto

open Lib

variable {Key : Type*} {K : Kdf Key} {C : Aead Key Nonce}

inductive Side where
  | initiator
  | responder
  deriving DecidableEq, Repr

def Side.peer : Side → Side
  | .initiator => .responder
  | .responder => .initiator

/-- The flag the side calls `SessionRatchet.new` with. -/
def Side.isInitiator : Side → Bool
  | .initiator => true
  | .responder => false

/-- The context of the side's send chain. -/
def Side.sendContext (s : Side) : String := (sessionContexts s.isInitiator).1

/-- The context of the side's receive chain. -/
def Side.recvContext (s : Side) : String := (sessionContexts s.isInitiator).2

inductive SessionEvent where
  | send (sender : Side) (plaintext : Bytes) (nonce : Nonce)
  | deliver (receiver : Side)
  deriving DecidableEq

/-- A frame under way, with the plaintext its sender encrypted. -/
structure Frame where
  plaintext : Bytes
  frame : Bytes

/-- A delivered frame: what was encrypted, and what decryption returned. -/
structure Delivery where
  plaintext : Bytes
  result : Except RatchetError Bytes

structure Session (Key : Type*) where
  ratchet : Side → SessionRatchet Key
  inFlight : Side → List Frame
  delivered : List Delivery

/-- Both sides hold the session key, and nothing is under way. -/
def Session.new (K : Kdf Key) (sessionKey : Key) : Session Key where
  ratchet s := .new K sessionKey s.isInitiator
  inFlight _ := []
  delivered := []

def Session.step (K : Kdf Key) (C : Aead Key Nonce) (st : Session Key) :
    SessionEvent → Session Key
  | .send s plaintext nonce =>
    let (out, r) := (st.ratchet s).encrypt K C nonce plaintext
    { st with
      ratchet := Function.update st.ratchet s r
      inFlight := match out with
        | .error _ => st.inFlight
        | .ok frame => Function.update st.inFlight s.peer
            (st.inFlight s.peer ++ [⟨plaintext, frame⟩]) }
  | .deliver s =>
    match st.inFlight s with
    | [] => st
    | f :: rest =>
      let (out, r) := (st.ratchet s).decrypt K C f.frame
      { ratchet := Function.update st.ratchet s r
        inFlight := Function.update st.inFlight s rest
        delivered := st.delivered ++ [⟨f.plaintext, out⟩] }

/-- A delivery needs a frame that is under way. -/
def Session.Enabled (st : Session Key) : SessionEvent → Prop
  | .send .. => True
  | .deliver s => st.inFlight s ≠ []

section Step

variable {st : Session Key} {s : Side}

@[simp] theorem Session.step_send_ratchet (p : Bytes) (n : Nonce) :
    (st.step K C (.send s p n)).ratchet =
      Function.update st.ratchet s ((st.ratchet s).encrypt K C n p).2 := rfl

@[simp] theorem Session.step_send_delivered (p : Bytes) (n : Nonce) :
    (st.step K C (.send s p n)).delivered = st.delivered := rfl

/-- A send adds at most its own frame, at the end of the peer's queue. -/
theorem Session.mem_inFlight_send {p : Bytes} {n : Nonce} {t : Side} {f : Frame}
    (hf : f ∈ (st.step K C (.send s p n)).inFlight t) :
    f ∈ st.inFlight t ∨
      t = s.peer ∧ f.plaintext = p ∧ ((st.ratchet s).send.encrypt K C n p).1 = .ok f.frame := by
  simp only [Session.step, SessionRatchet.encrypt_fst] at hf
  cases hok : ((st.ratchet s).send.encrypt K C n p).1 with
  | error e => exact .inl (by simpa [hok] using hf)
  | ok frame =>
    rw [hok] at hf
    by_cases ht : t = s.peer
    · subst ht
      have both : f ∈ st.inFlight s.peer ∨ f = ⟨p, frame⟩ := by simpa using hf
      rcases both with old | rfl
      · exact .inl old
      · exact .inr ⟨rfl, rfl, rfl⟩
    · exact .inl (by simpa [ht] using hf)

theorem Session.step_deliver {f : Frame} {rest : List Frame}
    (hs : st.inFlight s = f :: rest) :
    st.step K C (.deliver s) =
      { ratchet := Function.update st.ratchet s ((st.ratchet s).decrypt K C f.frame).2
        inFlight := Function.update st.inFlight s rest
        delivered := st.delivered ++ [⟨f.plaintext, ((st.ratchet s).decrypt K C f.frame).1⟩] } := by
  simp [Session.step, hs]

theorem Session.step_deliver_nil (hs : st.inFlight s = []) :
    st.step K C (.deliver s) = st := by
  simp [Session.step, hs]

end Step

/-! ## The invariant of a run -/

/-- Every chain keeps the context of its role, every frame under way was encrypted
under the sender's send context, and every delivery so far was rejected. -/
structure Session.Inv (K : Kdf Key) (C : Aead Key Nonce) (sessionKey : Key) (st : Session Key) :
    Prop where
  send : ∀ s, (st.ratchet s).send.SeededBy K sessionKey s.sendContext
  recv : ∀ s, (st.ratchet s).recv.SeededBy K sessionKey s.recvContext
  inFlight : ∀ s, ∀ f ∈ st.inFlight s,
    Carries K C sessionKey s.peer.sendContext f.plaintext f.frame
  rejected : ∀ d ∈ st.delivered, d.result = .error .decrypt

theorem Side.peer_peer (s : Side) : s.peer.peer = s := by cases s <;> rfl

/-- The contexts never pair up. -/
theorem Side.contexts_ne (s : Side) :
    s.peer.sendContext ≠ s.recvContext ∧ s.sendContext ≠ chainAdvanceContext ∧
      s.recvContext ≠ chainAdvanceContext := by
  cases s <;> decide

theorem Session.inv_new (sessionKey : Key) : (Session.new K sessionKey).Inv K C sessionKey where
  send s := RatchetChain.seededBy_new ..
  recv s := RatchetChain.seededBy_new ..
  inFlight := by simp [Session.new]
  rejected := by simp [Session.new]

theorem Session.inv_send {sessionKey : Key} {st : Session Key} (h : st.Inv K C sessionKey)
    (s : Side) (plaintext : Bytes) (nonce : Nonce) :
    (st.step K C (.send s plaintext nonce)).Inv K C sessionKey where
  send t := by
    by_cases ht : t = s
    · subst ht
      simpa using (h.send t).encrypt nonce plaintext
    · simpa [ht] using h.send t
  recv t := by
    by_cases ht : t = s
    · subst ht
      simpa using h.recv t
    · simpa [ht] using h.recv t
  inFlight t f hf := by
    rcases Session.mem_inFlight_send hf with old | ⟨rfl, rfl, hok⟩
    · exact h.inFlight t f old
    · rw [Side.peer_peer]
      exact (h.send s).encrypt_carries hok
  rejected := h.rejected

theorem Session.inv_deliver (hK : K.Injective) (hC : C.Ideal) {sessionKey : Key}
    {st : Session Key} (h : st.Inv K C sessionKey) (s : Side) :
    (st.step K C (.deliver s)).Inv K C sessionKey := by
  cases hs : st.inFlight s with
  | nil => rwa [Session.step_deliver_nil hs]
  | cons f rest =>
    rw [Session.step_deliver hs]
    have carries := h.inFlight s f (by simp [hs])
    refine ⟨fun t => ?_, fun t => ?_, fun t g hg => ?_, fun d hd => ?_⟩
    · by_cases ht : t = s
      · subst ht
        simpa using h.send t
      · simpa [ht] using h.send t
    · by_cases ht : t = s
      · subst ht
        simpa using (h.recv t).decrypt f.frame
      · simpa [ht] using h.recv t
    · by_cases ht : t = s
      · subst ht
        have old : g ∈ rest := by simpa using hg
        exact h.inFlight t g (by simp [hs, old])
      · exact h.inFlight t g (by simpa [ht] using hg)
    · rcases List.mem_append.1 hd with old | new
      · exact h.rejected d old
      · obtain rfl := List.mem_singleton.1 new
        have ⟨pair, _, advance⟩ := s.contexts_ne
        exact (h.recv s).decrypt_foreign hK hC pair s.peer.contexts_ne.2.1 advance carries

theorem Session.inv_exec (hK : K.Injective) (hC : C.Ideal) (sessionKey : Key)
    {es : List SessionEvent}
    (run : Along (Session.step K C) Session.Enabled (Session.new K sessionKey) es) :
    (exec (Session.step K C) (Session.new K sessionKey) es).Inv K C sessionKey := by
  refine exec_invariant ?_ (Session.inv_new sessionKey) run
  intro st e h _
  cases e with
  | send s plaintext nonce => exact Session.inv_send h s plaintext nonce
  | deliver s => exact Session.inv_deliver hK hC h s

/-! ## What a run delivers -/

def SessionEvent.isDelivery : SessionEvent → Bool
  | .send .. => false
  | .deliver _ => true

/-- Every delivery of a run leaves a record. -/
theorem Session.length_delivered {st : Session Key} {es : List SessionEvent}
    (run : Along (Session.step K C) Session.Enabled st es) :
    (exec (Session.step K C) st es).delivered.length =
      st.delivered.length + es.countP SessionEvent.isDelivery := by
  induction es generalizing st with
  | nil => simp
  | cons e es ih =>
    rw [exec_cons, ih run.2]
    cases e with
    | send s plaintext nonce => simp [Session.step, SessionEvent.isDelivery]
    | deliver s =>
      obtain ⟨f, rest, hs⟩ := List.exists_cons_of_ne_nil run.1
      rw [Session.step_deliver hs, List.countP_cons_of_pos rfl]
      simp
      omega

/-- A run returns what was sent in every delivery exactly when it has no delivery. -/
theorem session_delivers_iff (hK : K.Injective) (hC : C.Ideal) (sessionKey : Key)
    (es : List SessionEvent)
    (run : Along (Session.step K C) Session.Enabled (Session.new K sessionKey) es) :
    (∀ d ∈ (exec (Session.step K C) (Session.new K sessionKey) es).delivered,
        d.result = .ok d.plaintext) ↔
      ∀ e ∈ es, e.isDelivery = false := by
  have rejected := (Session.inv_exec hK hC sessionKey run).rejected
  have count := Session.length_delivered run
  set delivered := (exec (Session.step K C) (Session.new K sessionKey) es).delivered
  have none_accepted : (∀ d ∈ delivered, d.result = .ok d.plaintext) ↔ delivered = [] := by
    refine ⟨fun accepted => ?_, by simp +contextual⟩
    apply List.eq_nil_iff_forall_not_mem.2
    intro d hd
    exact absurd ((rejected d hd).symm.trans (accepted d hd)) (by simp)
  rw [none_accepted, ← List.length_eq_zero_iff, count]
  simp [Session.new, List.countP_eq_zero]

/-- The initiator sends two bytes, and no frame is delivered. -/
theorem session_delivers_nothing :
    let es := [.send .initiator [1, 2] (Vector.replicate 24 0)]
    (∀ d ∈ (exec (Session.step symbolicKdf (symbolicAead Nonce)) (Session.new symbolicKdf [5])
        es).delivered, d.result = .ok d.plaintext) ↔
      ∀ e ∈ es, e.isDelivery = false :=
  session_delivers_iff symbolicKdf_injective (symbolicAead_ideal Nonce) [5]
    [.send .initiator [1, 2] (Vector.replicate 24 0)] (by simp [Session.Enabled])

/-- The initiator sends two bytes, and the responder rejects the frame. -/
theorem session_rejects_first :
    let es := [.send .initiator [1, 2] (Vector.replicate 24 0), .deliver .responder]
    let step := Session.step symbolicKdf (symbolicAead Nonce)
    symbolicKdf.Injective ∧ (symbolicAead Nonce).Ideal ∧
      Along step Session.Enabled (Session.new symbolicKdf [5]) es ∧
      ¬ ∀ d ∈ (exec step (Session.new symbolicKdf [5]) es).delivered,
        d.result = .ok d.plaintext := by
  intro es step
  have run : Along step Session.Enabled (Session.new symbolicKdf [5]) es := by
    refine ⟨trivial, ?_, trivial⟩
    simp [Session.Enabled, step, Session.step, SessionRatchet.encrypt, RatchetChain.encrypt,
      RatchetChain.advance, symbolicAead, Side.peer]
  refine ⟨symbolicKdf_injective, symbolicAead_ideal Nonce, run, fun accepted => ?_⟩
  have inv := Session.inv_exec symbolicKdf_injective (symbolicAead_ideal Nonce) [5] run
  have count := Session.length_delivered run
  obtain ⟨d, hd⟩ := List.exists_mem_of_length_pos
    (show 0 < (exec step (Session.new symbolicKdf [5]) es).delivered.length by
      rw [count]; decide)
  exact absurd ((inv.rejected d hd).symm.trans (accepted d hd)) (by simp)

end Zodia.Crypto
