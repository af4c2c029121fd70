/-
# Runs of a machine

A run applies calls one after the other. A condition on steps, which may look at
the state before the call, is carried along the run, and what one such step
preserves holds in every state that is reached.
-/

import Mathlib.Data.Nat.Notation

namespace EspOpenRtos.Math.Runs

variable {S C : Type*} (step : S → C → S) (ok : S → C → Prop)

/-- The state after a sequence of calls. -/
def run (s : S) (calls : List C) : S := calls.foldl step s

/-- Every call of the sequence meets the condition in the state in which it is
made. -/
def Along : S → List C → Prop
  | _, [] => True
  | s, call :: calls => ok s call ∧ Along (step s call) calls

variable {step ok}

theorem run_nil (s : S) : run step s [] = s := rfl

theorem run_cons (s : S) (call : C) (calls : List C) :
    run step s (call :: calls) = run step (step s call) calls := rfl

theorem run_append (s : S) (calls more : List C) :
    run step s (calls ++ more) = run step (run step s calls) more := List.foldl_append

/-- What every step preserves holds at the end of a run. -/
theorem run_invariant {P : S → Prop} (preserved : ∀ s call, P s → ok s call → P (step s call))
    {s : S} {calls : List C} (start : P s) (along : Along step ok s calls) :
    P (run step s calls) := by
  induction calls generalizing s with
  | nil => exact start
  | cons call calls ih => exact ih (preserved s call start along.1) along.2

/-- Two machines that every call keeps together. -/
theorem run_simulation {T : Type*} {step' : T → C → T} {R : S → T → Prop}
    (preserved : ∀ s t call, R s t → R (step s call) (step' t call)) {s : S} {t : T}
    (start : R s t) (calls : List C) : R (run step s calls) (run step' t calls) := by
  induction calls generalizing s t with
  | nil => exact start
  | cons call calls ih => exact ih (preserved s t call start)

theorem along_append {s : S} {calls more : List C} :
    Along step ok s (calls ++ more) ↔
      Along step ok s calls ∧ Along step ok (run step s calls) more := by
  induction calls generalizing s with
  | nil => exact ⟨fun h => ⟨trivial, h⟩, And.right⟩
  | cons call calls ih =>
    rw [List.cons_append, run_cons, Along, Along, ih, and_assoc]

/-- What each call may overwrite holds the last value that was written. -/
theorem run_last_write {V : Type*} {get : S → V} {writes : C → Option V}
    (written : ∀ s call, get (step s call) = (writes call).getD (get s)) (s : S)
    (calls : List C) :
    get (run step s calls) = (calls.filterMap writes).getLast?.getD (get s) := by
  induction calls generalizing s with
  | nil => rfl
  | cons call calls ih =>
    rw [run_cons, ih, written]
    cases hwrites : writes call with
    | none => rw [List.filterMap_cons_none hwrites, Option.getD_none]
    | some v =>
      rw [List.filterMap_cons_some hwrites, List.getLast?_cons, Option.getD_some,
        Option.getD_some]

/-- Without a condition every run qualifies. -/
theorem along_true (s : S) (calls : List C) : Along step (fun _ _ => True) s calls := by
  induction calls generalizing s with
  | nil => trivial
  | cons call calls ih => exact ⟨trivial, ih _⟩

end EspOpenRtos.Math.Runs
