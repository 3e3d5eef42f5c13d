import Mathlib.Data.Multiset.OrderedMonoid
import Mathlib.Tactic.Abel
import Zodia.Lib.Run

/-!
# What enters a system and what leaves it

A system holds things and owes things. If in every step what it owes grows by what it
holds more and by what it loses, the same is true over a run, and a run loses nothing
exactly when none of its steps does.

## Main definitions

* `tally` — what the steps of a run amount to together.
* `exec_balance` — the balance of a run from the balance of its steps.
-/

namespace Zodia.Lib

variable {σ ε α : Type*} {step : σ → ε → σ} {ok : σ → ε → Prop}

/-- The sum of `f` over the steps of a run. -/
def tally (step : σ → ε → σ) (f : σ → ε → Multiset α) (s : σ) : List ε → Multiset α
  | [] => 0
  | e :: es => f s e + tally step f (step s e) es

variable {f : σ → ε → Multiset α} {s : σ} {es : List ε}

@[simp] theorem tally_nil : tally step f s [] = 0 := rfl

@[simp] theorem tally_cons (e : ε) :
    tally step f s (e :: es) = f s e + tally step f (step s e) es := rfl

/-- The steps of a run amount to nothing exactly when each of them does. -/
theorem tally_eq_zero_iff :
    tally step f s es = 0 ↔ Along step (fun s e => f s e = 0) s es := by
  induction es generalizing s with
  | nil => simp
  | cons e es ih => rw [tally_cons, along_cons, AddLeftCancelMonoid.add_eq_zero, ih]

/-- What is owed grows by what is held and what is lost. -/
theorem exec_balance (Inv : σ → Prop) (owed held : σ → Multiset α)
    (keep : ∀ s e, Inv s → ok s e → Inv (step s e))
    (balance : ∀ s e, Inv s → ok s e →
      owed (step s e) + held s = owed s + (held (step s e) + f s e))
    (start : Inv s) (along : Along step ok s es) :
    owed (exec step s es) + held s = owed s + (held (exec step s es) + tally step f s es) := by
  induction es generalizing s with
  | nil => simp
  | cons e es ih =>
    have first := balance s e start along.1
    have rest := ih (keep s e start along.1) along.2
    rw [exec_cons, tally_cons]
    apply add_right_cancel (b := held (step s e))
    calc owed (exec step (step s e) es) + held s + held (step s e)
        = owed (exec step (step s e) es) + held (step s e) + held s := add_right_comm ..
      _ = owed (step s e) + (held (exec step (step s e) es) + tally step f (step s e) es)
            + held s := by rw [rest]
      _ = owed (step s e) + held s
            + (held (exec step (step s e) es) + tally step f (step s e) es) := add_right_comm ..
      _ = owed s + (held (step s e) + f s e)
            + (held (exec step (step s e) es) + tally step f (step s e) es) := by rw [first]
      _ = _ := by abel

end Zodia.Lib
