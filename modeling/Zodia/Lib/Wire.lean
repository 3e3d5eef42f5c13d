import Mathlib.Algebra.Order.BigOperators.Group.List
import Mathlib.Algebra.Order.Ring.Nat
import Mathlib.Data.List.Basic
import Mathlib.Data.List.Perm.Basic
import Mathlib.Logic.Function.Basic
import Mathlib.Tactic.Common
import Zodia.Lib.Run

/-!
# Nodes on a wire

Nodes that exchange messages over a wire which loses and reorders them, and neither repeats nor
makes one. A node acts of its own accord or handles an arrival; both may put envelopes on the wire.

What arrived is bounded by what was sent: a received message is weighed against the notes that the
senders took, an envelope on the wire by what it will amount to. What a handler passes on is
bounded by a weight that it uses up.

## Main results

* `Network.exec_conserved` — nothing is received more often than it was sent.
* `Network.exec_fading` — the arrivals are bounded by the weight that was posted.
-/

namespace Zodia.Lib

/-- A message between two nodes. -/
structure Envelope (Node Msg : Type*) where
  source : Node
  target : Node
  msg : Msg

/-- What a node does of its own accord: its state afterwards, what it posts and what it notes as
sent. -/
structure Effect (Node State Msg Note : Type*) where
  state : State
  out : List (Envelope Node Msg)
  notes : List Note

/-- The nodes and the wire, with the history of the notes and the number of envelopes that were
posted by actions and that arrived. -/
structure Network (Node State Msg Note : Type*) where
  nodes : Node → State
  wire : List (Envelope Node Msg)
  notes : List Note
  posts : ℕ
  arrivals : ℕ

inductive WireEvent (Node Act Arrival : Type*) where
  | act (p : Node) (a : Act)
  | arrive (i : ℕ) (r : Arrival)
  | lose (i : ℕ)

/-- An envelope and the rest of the wire. -/
theorem perm_cons_eraseIdx {α : Type*} {l : List α} {i : ℕ} {x : α} (found : l[i]? = some x) :
    l.Perm (x :: l.eraseIdx i) := by
  obtain ⟨lt, rfl⟩ := List.getElem?_eq_some_iff.1 found
  exact (List.getElem_cons_eraseIdx_perm lt).symm

/-! ## What is on its way -/

section OnWire

variable {Node Msg Note : Type*} [DecidableEq Note] (meaning : Envelope Node Msg → Option Note)

/-- How often envelopes amount to a note. -/
def onWire (wire : List (Envelope Node Msg)) (g : Note) : ℕ := (wire.filterMap meaning).count g

theorem onWire_append (wire wire' : List (Envelope Node Msg)) (g : Note) :
    onWire meaning (wire ++ wire') g = onWire meaning wire g + onWire meaning wire' g := by
  simp [onWire]

theorem onWire_perm {wire wire' : List (Envelope Node Msg)} (h : wire.Perm wire') (g : Note) :
    onWire meaning wire g = onWire meaning wire' g := (h.filterMap meaning).count_eq g

theorem onWire_sublist {wire wire' : List (Envelope Node Msg)} (h : wire.Sublist wire')
    (g : Note) : onWire meaning wire g ≤ onWire meaning wire' g := (h.filterMap meaning).count_le g

end OnWire

/-! ## Steps -/

namespace Network

variable {Node State Msg Note Act Arrival : Type*} [DecidableEq Node]
  (act : Node → State → Act → Effect Node State Msg Note)
  (arrive : State → Envelope Node Msg → Arrival → State × List (Envelope Node Msg))

def start (s : State) : Network Node State Msg Note := ⟨fun _ => s, [], [], 0, 0⟩

def step (net : Network Node State Msg Note) :
    WireEvent Node Act Arrival → Network Node State Msg Note
  | .act p a =>
    let e := act p (net.nodes p) a
    { nodes := Function.update net.nodes p e.state
      wire := net.wire ++ e.out
      notes := net.notes ++ e.notes
      posts := net.posts + e.out.length
      arrivals := net.arrivals }
  | .arrive i r =>
    match net.wire[i]? with
    | none => net
    | some env =>
      let s := arrive (net.nodes env.target) env r
      { net with
        nodes := Function.update net.nodes env.target s.1
        wire := net.wire.eraseIdx i ++ s.2
        arrivals := net.arrivals + 1 }
  | .lose i => { net with wire := net.wire.eraseIdx i }

/-- Every action meets `ok` in the state of its node. -/
def Allowed (ok : Node → State → Act → Prop) (net : Network Node State Msg Note) :
    WireEvent Node Act Arrival → Prop
  | .act p a => ok p (net.nodes p) a
  | .arrive _ _ | .lose _ => True

variable {act arrive} {ok : Node → State → Act → Prop}

/-- What a step does: an action at a node, the arrival of one envelope of the wire, the loss of one,
or nothing. -/
theorem step_cases (net : Network Node State Msg Note) (e : WireEvent Node Act Arrival)
    (allowed : net.Allowed ok e) :
    (∃ p a, ok p (net.nodes p) a ∧ e = .act p a) ∨
    (∃ env rest r, net.wire.Perm (env :: rest) ∧
      net.step act arrive e =
        { net with
          nodes := Function.update net.nodes env.target (arrive (net.nodes env.target) env r).1
          wire := rest ++ (arrive (net.nodes env.target) env r).2
          arrivals := net.arrivals + 1 }) ∨
    (∃ rest, rest.Sublist net.wire ∧ net.step act arrive e = { net with wire := rest }) := by
  cases e with
  | act p a => exact .inl ⟨p, a, allowed, rfl⟩
  | arrive i r =>
    cases found : net.wire[i]? with
    | none =>
      refine .inr (.inr ⟨net.wire, List.Sublist.refl _, ?_⟩)
      simp only [step, found]
    | some env =>
      refine .inr (.inl ⟨env, net.wire.eraseIdx i, r, perm_cons_eraseIdx found, ?_⟩)
      simp only [step, found]
  | lose i => exact .inr (.inr ⟨net.wire.eraseIdx i, List.eraseIdx_sublist _ _, rfl⟩)

/-! ## Conservation -/

/-- How often a node received what is meant for it. -/
def tally (home : Note → Node) (received : State → Note → ℕ) (p : Node) (s : State) (g : Note) :
    ℕ := if p = home g then received s g else 0

/-- A step at one node changes what is received there, and nowhere else. -/
theorem received_update (home : Note → Node) (received : State → Note → ℕ) (nodes : Node → State)
    (p : Node) (s : State) (g : Note) :
    received (Function.update nodes p s (home g)) g + tally home received p (nodes p) g =
      received (nodes (home g)) g + tally home received p s g := by
  unfold tally
  split_ifs with own
  · rw [← own, Function.update_self]
    omega
  · rw [Function.update_of_ne (Ne.symm own)]

section Conservation

variable [DecidableEq Note] (meaning : Envelope Node Msg → Option Note) (home : Note → Node)
  (received : State → Note → ℕ)

/-- What was received and what is on its way was noted as sent. -/
def Conserved (net : Network Node State Msg Note) : Prop :=
  ∀ g, received (net.nodes (home g)) g + onWire meaning net.wire g ≤ net.notes.count g

variable {meaning home received}

/-- If an action notes what it posts, and a handler receives or passes on no more than what arrived,
nothing is received more often than it was sent. -/
theorem exec_conserved
    (hact : ∀ p s a, ok p s a → ∀ g,
      tally home received p (act p s a).state g + onWire meaning (act p s a).out g ≤
        tally home received p s g + (act p s a).notes.count g)
    (harrive : ∀ s env (r : Arrival) g,
      tally home received env.target (arrive s env r).1 g + onWire meaning (arrive s env r).2 g ≤
        tally home received env.target s g + onWire meaning [env] g)
    {net : Network Node State Msg Note} (start : net.Conserved meaning home received)
    {es : List (WireEvent Node Act Arrival)} (along : Along (step act arrive) (Allowed ok) net es) :
    (exec (step act arrive) net es).Conserved meaning home received := by
  refine exec_invariant (fun net e conserved allowed => ?_) start along
  rcases step_cases net e allowed with ⟨p, a, permitted, rfl⟩ | ⟨env, rest, r, parts, after⟩ |
    ⟨rest, part, after⟩
  · intro g
    have before := conserved g
    have node := hact p (net.nodes p) a permitted g
    have moved := received_update home received net.nodes p
      (act p (net.nodes p) a).state g
    simp only [step, onWire_append, List.count_append]
    omega
  · rw [after]
    intro g
    have before := conserved g
    have node := harrive (net.nodes env.target) env r g
    have moved := received_update home received net.nodes env.target
      (arrive (net.nodes env.target) env r).1 g
    rw [onWire_perm meaning parts, ← List.singleton_append, onWire_append] at before
    simp only [onWire_append]
    omega
  · rw [after]
    intro g
    have before := conserved g
    have fewer := onWire_sublist meaning part g
    dsimp only
    omega

end Conservation

/-! ## Fading -/

section Fading

variable (weight : Envelope Node Msg → ℕ) (bound : ℕ)

/-- The arrivals, and those that the wire can still bring, are within the weight of the posts. -/
def Fading (net : Network Node State Msg Note) : Prop :=
  net.arrivals + (net.wire.map weight).sum ≤ bound * net.posts

variable {weight bound}

/-- If an action posts envelopes of a bounded weight, and a handler passes on less weight than
arrived, the arrivals are bounded by the posts. -/
theorem exec_fading
    (hact : ∀ p s a, ok p s a → ∀ env ∈ (act p s a).out, weight env ≤ bound)
    (harrive : ∀ s env (r : Arrival), ((arrive s env r).2.map weight).sum < weight env)
    {net : Network Node State Msg Note} (start : net.Fading weight bound)
    {es : List (WireEvent Node Act Arrival)} (along : Along (step act arrive) (Allowed ok) net es) :
    (exec (step act arrive) net es).Fading weight bound := by
  refine exec_invariant (fun net e fading allowed => ?_) start along
  have before : net.arrivals + (net.wire.map weight).sum ≤ bound * net.posts := fading
  rcases step_cases net e allowed with ⟨p, a, permitted, rfl⟩ | ⟨env, rest, r, parts, after⟩ |
    ⟨rest, part, after⟩
  · have posted : ((act p (net.nodes p) a).out.map weight).sum ≤
        bound * (act p (net.nodes p) a).out.length := by
      have each : ∀ w ∈ (act p (net.nodes p) a).out.map weight, w ≤ bound := by
        intro w mem
        obtain ⟨env, out, rfl⟩ := List.mem_map.1 mem
        exact hact p _ a permitted env out
      have total := List.sum_le_card_nsmul _ _ each
      rw [List.length_map, nsmul_eq_mul, Nat.cast_id, Nat.mul_comm] at total
      exact total
    simp only [Fading, step, List.map_append, List.sum_append, Nat.mul_add]
    omega
  · rw [after]
    have lighter := harrive (net.nodes env.target) env r
    have whole : (net.wire.map weight).sum = weight env + (rest.map weight).sum := by
      rw [(parts.map weight).sum_eq, List.map_cons, List.sum_cons]
    simp only [Fading, List.map_append, List.sum_append]
    omega
  · rw [after]
    have fewer : (rest.map weight).sum ≤ (net.wire.map weight).sum :=
      (part.map weight).sum_le_sum fun _ _ => Nat.zero_le _
    simp only [Fading]
    omega

end Fading

end Network

end Zodia.Lib
