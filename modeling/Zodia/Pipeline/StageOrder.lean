import Zodia.Lib.Stack
import Zodia.Pipeline.Stages
import Zodia.Sync.LogSeparation

/-!
# The order of the stages

Both stages of the pipeline append their outputs to a vector and pop them from its end, so each
is a stack. A stage returns its outputs in the order of its inputs as long as its driver asks for
an output before it gives the next input but one.

## Main definitions

* `decodeStage`, `materializeStage` — the two processors as stages.

## Main results

* `stages_inOrder_iff` — the runs in which the stages keep the order.
* `stages_eachOnce` — in every run each input has one output.
-/

namespace Zodia.Pipeline

open Lib Sync Ops Stack

variable {Digest Args : Type}

def decodeStage (C : Codec Digest) :
    Stage (DecodeProcessor Digest Args) (Operation Digest Args) (DecodeOutput Digest Args) where
  process p input := some (p.process C input)
  next p := p.next

def materializeStage (H : Hashes Digest Args) :
    Stage (MaterializationProcessor Digest) (DecodeOutput Digest Args) (StateEvent Digest) where
  process p input := p.process H input
  next p := p.next

/-- The inbox is empty between two calls. -/
theorem decodeStage_isStack (C : Codec Digest) :
    (decodeStage C).IsStack (fun op : Operation Digest Args => some (decode C op))
      DecodeProcessor.outbox (fun p => p.inbox = []) where
  process_none _ none := absurd none (Option.some_ne_none _)
  process_some {p x y} ready out := by
    obtain rfl := Option.some.inj out
    exact ⟨_, rfl, rfl, by simp [DecodeProcessor.process, ready]⟩
  next_nil _ empty := by simp [decodeStage, DecodeProcessor.next, empty]
  next_append {p rest y} ready top := by
    refine ⟨⟨p.inbox, rest⟩, ?_, ready, rfl⟩
    simp [decodeStage, DecodeProcessor.next, top]

theorem materializeStage_isStack (H : Hashes Digest Args) :
    (materializeStage H).IsStack (materializeOutput H) MaterializationProcessor.outbox
      (fun _ => True) where
  process_none _ none := by simp [materializeStage, MaterializationProcessor.process, none]
  process_some _ out :=
    ⟨_, by simp [materializeStage, MaterializationProcessor.process, out], trivial, rfl⟩
  next_nil _ empty := by simp [materializeStage, MaterializationProcessor.next, empty]
  next_append {p rest y} _ top :=
    ⟨⟨rest⟩, by simp [materializeStage, MaterializationProcessor.next, top], trivial, rfl⟩

variable (H : Hashes Digest Args) (C : Codec Digest)

/-- The decode stage has an output for every input, the materialisation stage for those that are
not decoded operations without a timestamp. -/
theorem stages_eachOnce (calls : List (Call (Operation Digest Args)))
    {calls' : List (Call (DecodeOutput Digest Args))}
    (has : ∀ c ∈ calls', HasOutput (materializeOutput H) c) :
    Always (decodeStage C).step (EachOnce (fun op => some (decode C op)) DecodeProcessor.outbox)
      (Driven.init ⟨[], []⟩) calls ∧
    Always (materializeStage H).step
      (EachOnce (materializeOutput H) MaterializationProcessor.outbox) (Driven.init ⟨[]⟩)
      calls' := by
  constructor
  · refine (decodeStage_isStack C).always_eachOnce rfl rfl fun c _ => ?_
    cases c with
    | process op => rfl
    | next => trivial
  · exact (materializeStage_isStack H).always_eachOnce trivial rfl has

/-- **Both stages keep the order exactly in the runs that ask for an output while one waits at
most**, and give the materialisation stage no decoded operation without a timestamp. -/
theorem stages_inOrder_iff (calls : List (Call (Operation Digest Args)))
    (calls' : List (Call (DecodeOutput Digest Args))) :
    (Always (decodeStage C).step
        (InOrder (fun op => some (decode C op)) DecodeProcessor.outbox)
        (Driven.init ⟨[], []⟩) calls ↔
      Along (decodeStage C).step
        (InTurn (fun op => some (decode C op)) DecodeProcessor.outbox)
        (Driven.init ⟨[], []⟩) calls) ∧
    (Always (materializeStage H).step
        (InOrder (materializeOutput H) MaterializationProcessor.outbox)
        (Driven.init ⟨[]⟩) calls' ↔
      Along (materializeStage H).step
        (InTurn (materializeOutput H) MaterializationProcessor.outbox)
        (Driven.init ⟨[]⟩) calls') :=
  ⟨(decodeStage_isStack C).always_inOrder_iff rfl rfl calls,
    (materializeStage_isStack H).always_inOrder_iff trivial rfl calls'⟩

/-- Two inputs before an output is asked for. -/
def twoInputs : List (Call (DecodeOutput (List UInt8) Unit)) :=
  [.process (.skipped .noBody), .process (.skipped (.malformedOp "trailing bytes")), .next]

/-- The output of the second input comes first. -/
theorem second_comes_first :
    (exec (materializeStage symbolicHashes).step (Driven.init ⟨[]⟩) twoInputs).returned =
      [(1, .skipped (.malformedOp "trailing bytes"))] ∧
    ¬ Always (materializeStage symbolicHashes).step
      (InOrder (materializeOutput symbolicHashes) MaterializationProcessor.outbox)
      (Driven.init ⟨[]⟩) twoInputs := by
  refine ⟨rfl, fun always => ?_⟩
  have order : [1] = [0] := always.last.order
  exact absurd order (by decide)

end Zodia.Pipeline
