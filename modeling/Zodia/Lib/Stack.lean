import Mathlib.Data.List.Range
import Zodia.Lib.Run

/-!
# Stages that keep their outputs on a stack

A stage is fed inputs and asked for outputs, in any order. Here it puts an output on top of those
that wait and takes the output it is asked for from the top. The inputs are numbered as they are
given, and an output carries the number of its input.

## Main definitions

* `Stage`, `Stage.IsStack` — a stage, and what makes it a stack.
* `Driven`, `Stage.step` — a stage with what it was given and what it returned.
* `EachOnce` — each input has one output, returned or waiting.
* `InOrder` — the outputs come in the order of the inputs, too.
* `InTurn` — the calls that keep the order.

## Main results

* `IsStack.always_eachOnce` — no output is lost, none comes twice.
* `IsStack.always_inOrder_iff` — the order is kept just by the runs that ask for an output while
  one waits at most.
-/

namespace Zodia.Stack

open Lib

variable {S α β : Type*}

/-! ## Stages -/

inductive Call (α : Type*) where
  | process (input : α)
  | next

/-- `process` is `none` where it panics, `next` while it waits. -/
structure Stage (S α β : Type*) where
  process : S → α → Option S
  next : S → Option (β × S)

/-- An output is put on top of `outbox` and taken from the top. -/
structure Stage.IsStack (m : Stage S α β) (f : α → Option β) (outbox : S → List β)
    (Ready : S → Prop) : Prop where
  process_none : ∀ {s x}, Ready s → f x = none → m.process s x = none
  process_some : ∀ {s x y}, Ready s → f x = some y →
    ∃ s', m.process s x = some s' ∧ Ready s' ∧ outbox s' = outbox s ++ [y]
  next_nil : ∀ {s}, Ready s → outbox s = [] → m.next s = none
  next_append : ∀ {s rest y}, Ready s → outbox s = rest ++ [y] →
    ∃ s', m.next s = some (y, s') ∧ Ready s' ∧ outbox s' = rest

/-- A stage, the inputs it was given, the numbers of those whose outputs wait, and the outputs it
returned, each with the number of its input. -/
structure Driven (S α β : Type*) where
  stage : S
  given : List α
  waiting : List ℕ
  returned : List (ℕ × β)

/-- Nothing was given to the stage yet. -/
def Driven.init (s : S) : Driven S α β := ⟨s, [], [], []⟩

/-- One call. A panic leaves the stage as it is, and so does a call that still waits. -/
def Stage.step (m : Stage S α β) (d : Driven S α β) : Call α → Driven S α β
  | .process x =>
    match m.process d.stage x with
    | none => { d with given := d.given ++ [x] }
    | some s =>
      { d with
        stage := s
        given := d.given ++ [x]
        waiting := d.waiting ++ [d.given.length] }
  | .next =>
    match m.next d.stage, d.waiting.getLast? with
    | some (out, s), some i =>
      { d with
        stage := s
        waiting := d.waiting.dropLast
        returned := d.returned ++ [(i, out)] }
    | _, _ => d

/-! ## Order -/

section Order

variable (f : α → Option β) (outbox : S → List β) (d : Driven S α β)

/-- The output of the input of a number. -/
def Driven.output (i : ℕ) : Option β := d.given[i]?.bind f

/-- What was returned, and what waits, are outputs of the inputs of their numbers. -/
structure Faithful : Prop where
  returned : ∀ p ∈ d.returned, d.output f p.1 = some p.2
  waits : (outbox d.stage).map some = d.waiting.map (d.output f)

/-- What was returned and what waits are the outputs of all inputs, each once. -/
structure EachOnce : Prop extends Faithful f outbox d where
  once : (d.returned.map Prod.fst ++ d.waiting).Perm (List.range d.given.length)

/-- The outputs come in the order of the inputs, too. -/
structure InOrder : Prop extends EachOnce f outbox d where
  order : d.returned.map Prod.fst = List.range d.returned.length

/-- The input has an output. An output is asked for while at most one waits. -/
def InTurn : Call α → Prop
  | .process x => (f x).isSome
  | .next => (outbox d.stage).length ≤ 1

/-- The input of the call, if it has one, has an output. -/
def HasOutput : Call α → Prop
  | .process x => (f x).isSome
  | .next => True

end Order

section Steps

variable {m : Stage S α β} {f : α → Option β} {outbox : S → List β} {Ready : S → Prop}
  (stack : m.IsStack f outbox Ready) {d : Driven S α β}

theorem Driven.output_append {i : ℕ} {y : β} (known : d.output f i = some y) (x : α)
    (s : S) (w : List ℕ) (r : List (ℕ × β)) :
    Driven.output f ⟨s, d.given ++ [x], w, r⟩ i = some y := by
  obtain ⟨x', here, out⟩ := Option.bind_eq_some_iff.1 known
  have lt : i < d.given.length := (List.getElem?_eq_some_iff.1 here).1
  simp only [Driven.output, List.getElem?_append_left lt, here, Option.bind_some, out]

theorem Driven.output_length (x : α) (s : S) (w : List ℕ) (r : List (ℕ × β)) :
    Driven.output f ⟨s, d.given ++ [x], w, r⟩ d.given.length = f x := by
  simp [Driven.output]

/-- Outputs that wait are known, so a new input changes none of them. -/
theorem Faithful.waits_append (faithful : Faithful f outbox d) (x : α) (s : S) (w : List ℕ)
    (r : List (ℕ × β)) :
    d.waiting.map (Driven.output f ⟨s, d.given ++ [x], w, r⟩) = (outbox d.stage).map some := by
  rw [faithful.waits]
  refine List.map_congr_left fun i mem => ?_
  have image : d.output f i ∈ (outbox d.stage).map some :=
    faithful.waits ▸ List.mem_map_of_mem mem
  obtain ⟨y, -, known⟩ := List.mem_map.1 image
  rw [← known, Driven.output_append known.symm]

include stack

theorem Stage.IsStack.step_process_none {x : α} (ready : Ready d.stage) (panics : f x = none) :
    m.step d (.process x) = { d with given := d.given ++ [x] } := by
  simp only [Stage.step, stack.process_none ready panics]

theorem Stage.IsStack.step_process_some {x : α} {y : β} (ready : Ready d.stage)
    (out : f x = some y) :
    ∃ s, Ready s ∧ outbox s = outbox d.stage ++ [y] ∧ m.step d (.process x) =
      ⟨s, d.given ++ [x], d.waiting ++ [d.given.length], d.returned⟩ := by
  obtain ⟨s, process, ready', top⟩ := stack.process_some ready out
  exact ⟨s, ready', top, by simp only [Stage.step, process]⟩

theorem Stage.IsStack.step_next_nil (ready : Ready d.stage) (empty : outbox d.stage = []) :
    m.step d .next = d := by
  simp only [Stage.step, stack.next_nil ready empty]

/-- The output on top is that of the last number that waits. -/
theorem Stage.IsStack.step_next_append {rest : List β} {y : β} (ready : Ready d.stage)
    (top : outbox d.stage = rest ++ [y]) (faithful : Faithful f outbox d) :
    ∃ s numbers i, Ready s ∧ outbox s = rest ∧ d.waiting = numbers ++ [i] ∧
      d.output f i = some y ∧ rest.map some = numbers.map (d.output f) ∧
      m.step d .next = ⟨s, d.given, numbers, d.returned ++ [(i, y)]⟩ := by
  obtain ⟨s, next, ready', left⟩ := stack.next_append ready top
  have waits := faithful.waits
  rcases List.eq_nil_or_concat d.waiting with empty | ⟨numbers, i, split⟩
  · simp [top, empty] at waits
  · rw [List.concat_eq_append] at split
    rw [top, split, List.map_append, List.map_append] at waits
    obtain ⟨below, last⟩ := List.append_inj' waits rfl
    refine ⟨s, numbers, i, ready', left, split, (List.cons.inj last).1.symm, below, ?_⟩
    simp only [Stage.step, next, split, List.getLast?_concat, List.dropLast_concat]

/-- What a call does: the input panics, or its output is put on top; there is nothing to take, or
the output on top is taken. -/
theorem Stage.IsStack.step_cases (ready : Ready d.stage) (faithful : Faithful f outbox d)
    (c : Call α) :
    (∃ x, c = .process x ∧ f x = none ∧
      m.step d c = { d with given := d.given ++ [x] }) ∨
    (∃ x y s, c = .process x ∧ f x = some y ∧ Ready s ∧ outbox s = outbox d.stage ++ [y] ∧
      m.step d c = ⟨s, d.given ++ [x], d.waiting ++ [d.given.length], d.returned⟩) ∨
    (c = .next ∧ outbox d.stage = [] ∧ m.step d c = d) ∨
    (∃ s rest numbers i y, c = .next ∧ Ready s ∧ outbox d.stage = rest ++ [y] ∧
      outbox s = rest ∧ d.waiting = numbers ++ [i] ∧ d.output f i = some y ∧
      rest.map some = numbers.map (d.output f) ∧
      m.step d c = ⟨s, d.given, numbers, d.returned ++ [(i, y)]⟩) := by
  cases c with
  | process x =>
    cases out : f x with
    | none => exact .inl ⟨x, rfl, out, stack.step_process_none ready out⟩
    | some y =>
      obtain ⟨s, ready', top, step⟩ := stack.step_process_some ready out
      exact .inr (.inl ⟨x, y, s, rfl, out, ready', top, step⟩)
  | next =>
    rcases List.eq_nil_or_concat (outbox d.stage) with empty | ⟨rest, y, top⟩
    · exact .inr (.inr (.inl ⟨rfl, empty, stack.step_next_nil ready empty⟩))
    · rw [List.concat_eq_append] at top
      obtain ⟨s, numbers, i, ready', left, split, known, below, step⟩ :=
        stack.step_next_append ready top faithful
      exact .inr (.inr (.inr ⟨s, rest, numbers, i, y, rfl, ready', top, left, split, known, below,
        step⟩))

theorem Stage.IsStack.faithful_step (ready : Ready d.stage) (faithful : Faithful f outbox d)
    (c : Call α) : Ready (m.step d c).stage ∧ Faithful f outbox (m.step d c) := by
  obtain ⟨x, -, -, step⟩ | ⟨x, y, s, -, out, ready', top, step⟩ | ⟨-, -, step⟩ |
    ⟨s, rest, numbers, i, y, -, ready', -, left, -, known, below, step⟩ :=
      stack.step_cases ready faithful c
  · rw [step]
    refine ⟨ready, fun p mem => Driven.output_append (faithful.returned p mem) x _ _ _, ?_⟩
    exact (faithful.waits_append x _ _ _).symm
  · rw [step]
    refine ⟨ready', fun p mem => Driven.output_append (faithful.returned p mem) x _ _ _, ?_⟩
    rw [top, List.map_append, List.map_append, faithful.waits_append, List.map_singleton,
      List.map_singleton, Driven.output_length, out]
  · rw [step]
    exact ⟨ready, faithful⟩
  · rw [step]
    refine ⟨ready', fun p mem => ?_, by rw [left]; exact below⟩
    rcases List.mem_append.1 mem with old | new
    · exact faithful.returned p old
    · obtain rfl := List.mem_singleton.1 new
      exact known

/-! ## Order over runs -/

/-- While every call is in turn, the numbers stand in the order of the inputs. -/
structure Kept (f : α → Option β) (outbox : S → List β) (Ready : S → Prop) (d : Driven S α β) :
    Prop extends Faithful f outbox d where
  ready : Ready d.stage
  numbers : d.returned.map Prod.fst ++ d.waiting = List.range d.given.length

omit stack in
theorem Kept.inOrder (kept : Kept f outbox Ready d) : InOrder f outbox d := by
  refine ⟨⟨kept.toFaithful, kept.numbers ▸ List.Perm.refl _⟩, ?_⟩
  have front := congrArg (List.take d.returned.length) kept.numbers
  rw [List.take_range, List.take_append_of_le_length (by simp), List.take_of_length_le (by simp)]
    at front
  rw [front]
  congr 1
  have total := congrArg List.length kept.numbers
  simp only [List.length_append, List.length_map, List.length_range] at total
  omega

omit stack in
theorem Kept.length (kept : Kept f outbox Ready d) :
    d.returned.length + (outbox d.stage).length = d.given.length := by
  have total := congrArg List.length kept.numbers
  have waits := congrArg List.length kept.waits
  simp only [List.length_append, List.length_map, List.length_range] at total waits
  omega

theorem Stage.IsStack.kept_step (kept : Kept f outbox Ready d) {c : Call α}
    (turn : InTurn f outbox d c) : Kept f outbox Ready (m.step d c) := by
  obtain ⟨ready', faithful'⟩ := stack.faithful_step kept.ready kept.toFaithful c
  refine ⟨faithful', ready', ?_⟩
  obtain ⟨x, rfl, panics, -⟩ | ⟨x, y, s, -, -, -, -, step⟩ | ⟨-, -, step⟩ |
    ⟨s, rest, numbers, i, y, rfl, -, top, -, split, -, below, step⟩ :=
      stack.step_cases kept.ready kept.toFaithful c
  · rw [InTurn, panics] at turn
    cases turn
  · rw [step, ← List.append_assoc, kept.numbers, List.length_append, List.length_singleton,
      List.range_succ]
  · rw [step]
    exact kept.numbers
  · have one : rest = [] := by
      rw [InTurn, top, List.length_append, List.length_singleton] at turn
      exact List.length_eq_zero_iff.1 (by omega)
    have single : numbers = [] := by
      rw [one, List.map_nil, eq_comm, List.map_eq_nil_iff] at below
      exact below
    have before := kept.numbers
    rw [split, single] at before
    rw [step, single, List.map_append, List.append_nil]
    exact before

/-- A call out of turn ends the order. -/
theorem Stage.IsStack.inTurn_of_inOrder (kept : Kept f outbox Ready d) {c : Call α}
    (order : InOrder f outbox (m.step d c)) : InTurn f outbox d c := by
  have before := kept.length
  obtain ⟨x, rfl, -, step⟩ | ⟨x, y, s, rfl, out, -⟩ | ⟨rfl, empty, -⟩ |
    ⟨s, rest, numbers, i, y, rfl, -, top, -, split, -, -, step⟩ :=
      stack.step_cases kept.ready kept.toFaithful c
  · -- the input that panics has no output
    have total := order.once.length_eq
    have waits := congrArg List.length kept.waits
    rw [step] at total
    simp only [List.length_append, List.length_map, List.length_range, List.length_singleton]
      at total waits
    omega
  · rw [InTurn, out]
    rfl
  · rw [InTurn, empty]
    exact Nat.zero_le 1
  · -- the number taken is the last one given, and should be the next one to return
    have turn := congrArg List.getLast? order.order
    have last := congrArg List.getLast? kept.numbers
    have height := congrArg List.length top
    rw [List.length_append, List.length_singleton] at height
    rw [split, ← List.append_assoc, List.getLast?_concat, List.getLast?_range,
      if_neg (by omega)] at last
    rw [step, List.map_append, List.map_singleton, List.getLast?_concat, List.length_append,
      List.length_singleton, List.getLast?_range, if_neg (by omega)] at turn
    rw [turn] at last
    have same := Option.some.inj last
    rw [InTurn]
    omega

theorem Stage.IsStack.eachOnce_step (ready : Ready d.stage) (each : EachOnce f outbox d)
    {c : Call α} (has : HasOutput f c) : EachOnce f outbox (m.step d c) := by
  refine ⟨(stack.faithful_step ready each.toFaithful c).2, ?_⟩
  obtain ⟨x, rfl, panics, -⟩ | ⟨x, y, s, -, -, -, -, step⟩ | ⟨-, -, step⟩ |
    ⟨s, rest, numbers, i, y, -, -, -, -, split, -, -, step⟩ :=
      stack.step_cases ready each.toFaithful c
  · rw [HasOutput, panics] at has
    cases has
  · rw [step, ← List.append_assoc, List.length_append, List.length_singleton, List.range_succ]
    exact each.once.append_right _
  · rw [step]
    exact each.once
  · rw [step, List.map_append, List.append_assoc]
    refine List.Perm.trans (List.Perm.append_left _ ?_) (split ▸ each.once)
    exact List.perm_append_comm

variable {s : S} (ready : Ready s) (empty : outbox s = [])

include ready empty

/-- **No output is lost and none comes twice**, in whatever order they come. -/
theorem Stage.IsStack.always_eachOnce {calls : List (Call α)}
    (has : ∀ c ∈ calls, HasOutput f c) :
    Always m.step (EachOnce f outbox) (Driven.init s) calls := by
  have keep : ∀ d c, (Ready d.stage ∧ EachOnce f outbox d) → HasOutput f c →
      Ready (m.step d c).stage ∧ EachOnce f outbox (m.step d c) := fun d c inv has =>
    ⟨(stack.faithful_step inv.1 inv.2.toFaithful c).1, stack.eachOnce_step inv.1 inv.2 has⟩
  refine Always.of_invariant keep (fun d inv => inv.2) ⟨ready, ⟨?_, ?_⟩, List.Perm.refl _⟩
    (Along.of_forall has _)
  · exact fun _ mem => absurd mem List.not_mem_nil
  · rw [Driven.init, empty]
    rfl

/-- **The order is kept exactly by the runs that give inputs with outputs, and ask for an output
while one waits at most.** -/
theorem Stage.IsStack.always_inOrder_iff (calls : List (Call α)) :
    Always m.step (InOrder f outbox) (Driven.init s) calls ↔
      Along m.step (InTurn f outbox) (Driven.init s) calls := by
  have start : Kept f outbox Ready (Driven.init s : Driven S α β) := by
    refine ⟨⟨fun _ mem => absurd mem List.not_mem_nil, ?_⟩, ready, rfl⟩
    rw [Driven.init, empty]
    rfl
  have unguarded : Along m.step (fun _ _ => True) (Driven.init s : Driven S α β) calls :=
    Along.of_mem fun _ _ _ => trivial
  have exactly : ∀ d c, Kept f outbox Ready d → True → InOrder f outbox d →
      (InOrder f outbox (m.step d c) ↔ InTurn f outbox d c) :=
    fun d c kept _ _ => ⟨stack.inTurn_of_inOrder kept,
      fun turn => (stack.kept_step kept turn).inOrder⟩
  rw [Along.always_iff_of_ok (fun d c kept _ turn => stack.kept_step kept turn) exactly start
    unguarded]
  exact and_iff_right start.inOrder

end Steps

end Zodia.Stack
