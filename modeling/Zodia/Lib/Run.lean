import Mathlib.Data.List.Basic

/-!
# Runs of a deterministic step function

A system is a state type, an event type and a total step function. What the
environment chooses (clock readings, random bytes, the entry a hash map yields
first) is part of the event, so a run is a list of events and its outcome is a
function of that list. An event that is not enabled in a state is kept out of a
run by a guard that every step has to meet.

## Main definitions

* `exec` — the state after a list of events.
* `Along` — every step of a run meets a guard in the state it is taken from.
* `Always` — every state of a run meets a predicate.
-/

namespace Zodia.Lib

variable {σ ε : Type*} {step : σ → ε → σ} {ok : σ → ε → Prop} {P : σ → Prop}

/-- The state after the events `es`, taken in order from `s`. -/
def exec (step : σ → ε → σ) (s : σ) (es : List ε) : σ := es.foldl step s

@[simp] theorem exec_nil (s : σ) : exec step s [] = s := rfl

@[simp] theorem exec_cons (s : σ) (e : ε) (es : List ε) :
    exec step s (e :: es) = exec step (step s e) es := rfl

@[simp] theorem exec_append (s : σ) (es fs : List ε) :
    exec step s (es ++ fs) = exec step (exec step s es) fs := List.foldl_append ..

/-- Each event of `es` meets `ok` in the state it is taken from. -/
def Along (step : σ → ε → σ) (ok : σ → ε → Prop) (s : σ) : List ε → Prop
  | [] => True
  | e :: es => ok s e ∧ Along step ok (step s e) es

@[simp] theorem along_nil (s : σ) : Along step ok s [] := trivial

@[simp] theorem along_cons (s : σ) (e : ε) (es : List ε) :
    Along step ok s (e :: es) ↔ ok s e ∧ Along step ok (step s e) es := Iff.rfl

@[simp] theorem along_append (s : σ) (es fs : List ε) :
    Along step ok s (es ++ fs) ↔ Along step ok s es ∧ Along step ok (exec step s es) fs := by
  induction es generalizing s with
  | nil => simp
  | cons e es ih => simp [ih, and_assoc]

/-- Two guards are met at every step together exactly if each is. -/
theorem along_and {good : σ → ε → Prop} {s : σ} {es : List ε} :
    Along step (fun s e => ok s e ∧ good s e) s es ↔ Along step ok s es ∧ Along step good s es := by
  induction es generalizing s with
  | nil => simp
  | cons e es ih => simp only [along_cons, ih, and_and_and_comm]

/-- A guard that the events meet in every state is met along every run of them. -/
theorem Along.of_mem {es : List ε} (h : ∀ s, ∀ e ∈ es, ok s e) {s : σ} : Along step ok s es := by
  induction es generalizing s with
  | nil => trivial
  | cons e es ih =>
    exact ⟨h s e List.mem_cons_self, ih fun s e he => h s e (List.mem_cons_of_mem _ he)⟩

/-- A guard on the events alone is met along every run of such events. -/
theorem Along.of_forall {good : ε → Prop} {es : List ε} (h : ∀ e ∈ es, good e) (s : σ) :
    Along step (fun _ e => good e) s es := Along.of_mem fun _ => h

theorem along_iff_forall {good : ε → Prop} {es : List ε} {s : σ} :
    Along step (fun _ e => good e) s es ↔ ∀ e ∈ es, good e := by
  induction es generalizing s with
  | nil => simp
  | cons e es ih => rw [along_cons, ih, List.forall_mem_cons]

/-- What holds at the start and is kept by every guarded step holds at the end of a run. -/
theorem exec_invariant {Inv : σ → Prop} (keep : ∀ s e, Inv s → ok s e → Inv (step s e))
    {s : σ} (start : Inv s) {es : List ε} (along : Along step ok s es) :
    Inv (exec step s es) := by
  induction es generalizing s with
  | nil => exact start
  | cons e es ih => exact ih (keep s e start along.1) along.2

/-- What holds at the start and is kept by every step holds at the end of a run. -/
theorem exec_keeps (Inv : σ → Prop) (keep : ∀ s e, Inv s → Inv (step s e)) {s : σ}
    (start : Inv s) (es : List ε) : Inv (exec step s es) := by
  induction es generalizing s with
  | nil => exact start
  | cons e es ih => exact ih (keep s e start)

/-- What an invariant and the guard grant at a step is granted at every step of a run. -/
theorem Along.of_invariant {Inv : σ → Prop} {good : σ → ε → Prop}
    (keep : ∀ s e, Inv s → ok s e → Inv (step s e)) (grant : ∀ s e, Inv s → ok s e → good s e)
    {s : σ} (start : Inv s) {es : List ε} (along : Along step ok s es) :
    Along step good s es := by
  induction es generalizing s with
  | nil => trivial
  | cons e es ih => exact ⟨grant s e start along.1, ih (keep s e start along.1) along.2⟩

/-- Two guards that agree in every state an invariant admits are met by the same runs, if one of
them keeps the invariant. The runs may be those of a third guard. -/
theorem Along.congr {Inv : σ → Prop} {good run : σ → ε → Prop}
    (keep : ∀ s e, Inv s → run s e → ok s e → Inv (step s e))
    (exactly : ∀ s e, Inv s → run s e → (good s e ↔ ok s e)) {s : σ} (start : Inv s) {es : List ε}
    (along : Along step run s es) : Along step good s es ↔ Along step ok s es := by
  induction es generalizing s with
  | nil => exact Iff.rfl
  | cons e es ih =>
    rw [along_cons, along_cons, exactly s e start along.1]
    exact and_congr_right fun holds => ih (keep s e start along.1 holds) along.2

theorem Along.congr_of_invariant {Inv : σ → Prop} {good : σ → ε → Prop}
    (keep : ∀ s e, Inv s → ok s e → Inv (step s e))
    (exactly : ∀ s e, Inv s → (good s e ↔ ok s e)) {s : σ} (start : Inv s) {es : List ε} :
    Along step good s es ↔ Along step ok s es :=
  have unguarded : Along step (fun _ _ => True) s es := Along.of_mem fun _ _ _ => trivial
  Along.congr (fun s e inv _ => keep s e inv) (fun s e inv _ => exactly s e inv) start unguarded

/-! ## Every state of a run -/

/-- `P` holds in every state of the run, in the first and in the last one too. -/
def Always (step : σ → ε → σ) (P : σ → Prop) (s : σ) : List ε → Prop
  | [] => P s
  | e :: es => P s ∧ Always step P (step s e) es

@[simp] theorem always_nil (s : σ) : Always step P s [] ↔ P s := Iff.rfl

@[simp] theorem always_cons (s : σ) (e : ε) (es : List ε) :
    Always step P s (e :: es) ↔ P s ∧ Always step P (step s e) es := Iff.rfl

theorem Always.start {s : σ} {es : List ε} (h : Always step P s es) : P s := by
  cases es with
  | nil => exact h
  | cons e es => exact h.1

theorem Always.last {s : σ} {es : List ε} (h : Always step P s es) : P (exec step s es) := by
  induction es generalizing s with
  | nil => exact h
  | cons e es ih => exact ih h.2

/-- What an invariant grants holds in every state of a run that keeps it. -/
theorem Always.of_invariant {Inv : σ → Prop} (keep : ∀ s e, Inv s → ok s e → Inv (step s e))
    (grant : ∀ s, Inv s → P s) {s : σ} (start : Inv s) {es : List ε}
    (along : Along step ok s es) : Always step P s es := by
  induction es generalizing s with
  | nil => exact grant s start
  | cons e es ih => exact ⟨grant s start, ih (keep s e start along.1) along.2⟩

/-- Two predicates that agree in every state an invariant admits hold in every state of the same
runs. -/
theorem Always.congr_of_invariant {Inv Q : σ → Prop} (keep : ∀ s e, Inv s → Inv (step s e))
    (exactly : ∀ s, Inv s → (P s ↔ Q s)) {s : σ} (start : Inv s) (es : List ε) :
    Always step P s es ↔ Always step Q s es := by
  induction es generalizing s with
  | nil => exact exactly s start
  | cons e es ih => rw [always_cons, always_cons, exactly s start, ih (keep s e start)]

/-- Where every step of a run keeps `P` exactly if it meets the guard `ok`, `P` holds in every
state exactly if it holds at the start and every step meets the guard. The invariant need only
hold while the guard is met. -/
theorem Along.always_iff_of_ok {good : σ → ε → Prop} {Inv : σ → Prop}
    (keep : ∀ s e, Inv s → good s e → ok s e → Inv (step s e))
    (exactly : ∀ s e, Inv s → good s e → P s → (P (step s e) ↔ ok s e)) {s : σ} (start : Inv s)
    {es : List ε} (run : Along step good s es) : Always step P s es ↔ P s ∧ Along step ok s es := by
  induction es generalizing s with
  | nil => simp
  | cons e es ih =>
    rw [always_cons, along_cons]
    refine and_congr_right fun holds => ?_
    have next := exactly s e start run.1 holds
    constructor
    · intro always
      have met := next.1 always.start
      exact ⟨met, ((ih (keep s e start run.1 met) run.2).1 always).2⟩
    · rintro ⟨met, rest⟩
      exact (ih (keep s e start run.1 met) run.2).2 ⟨next.2 met, rest⟩

theorem Along.always_iff {good : σ → ε → Prop} {Inv : σ → Prop}
    (keep : ∀ s e, Inv s → good s e → Inv (step s e))
    (exactly : ∀ s e, Inv s → good s e → P s → (P (step s e) ↔ ok s e)) {s : σ} (start : Inv s)
    {es : List ε} (run : Along step good s es) : Always step P s es ↔ P s ∧ Along step ok s es :=
  Along.always_iff_of_ok (fun s e inv he _ => keep s e inv he) exactly start run

/-- The same when the events alone say what a step may rely on. -/
theorem always_iff_along {Inv : σ → Prop} {es : List ε}
    (keep : ∀ s, ∀ e ∈ es, Inv s → Inv (step s e))
    (exactly : ∀ s, ∀ e ∈ es, Inv s → P s → (P (step s e) ↔ ok s e)) {s : σ} (start : Inv s) :
    Always step P s es ↔ P s ∧ Along step ok s es :=
  Along.always_iff (fun s e inv he => keep s e he inv) (fun s e inv he => exactly s e he inv) start
    (Along.of_forall (fun _ he => he) s)

end Zodia.Lib
