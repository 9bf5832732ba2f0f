/-
This file runs a fallible step function over a list of inputs and packages the
induction over such a run: a property that the start has and that every
successful step preserves holds of every state the run reaches.
-/

import Mathlib

namespace Run

variable {Error State Input : Type*} (step : State → Input → Except Error State)

/-- Take one step per input, in order, and stop at the first failure. -/
def run : State → List Input → Except Error State
  | state, [] => .ok state
  | state, input :: rest =>
    match step state input with
    | .ok next => run next rest
    | .error error => .error error

variable {step} {Invariant : State → Prop}

theorem run_cons_ok {state final : State} {input : Input} {rest : List Input} :
    run step state (input :: rest) = .ok final ↔
      ∃ next, step state input = .ok next ∧ run step next rest = .ok final := by
  rw [run]
  cases step state input with
  | ok next => simp
  | error error => simp

theorem run_eq_foldlM (state : State) (inputs : List Input) :
    run step state inputs = inputs.foldlM step state := by
  induction inputs generalizing state with
  | nil => rfl
  | cons input rest ih =>
    rw [run, List.foldlM_cons]
    cases step state input with
    | ok next => exact ih next
    | error error => rfl

/-- What the start has and every step preserves holds at the end of a run. -/
theorem run_invariant
    (preserved : ∀ state input next, Invariant state → step state input = .ok next → Invariant next)
    {state final : State} {inputs : List Input} (start : Invariant state)
    (ran : run step state inputs = .ok final) : Invariant final := by
  induction inputs generalizing state with
  | nil =>
    rw [run, Except.ok.injEq] at ran
    exact ran ▸ start
  | cons input rest ih =>
    obtain ⟨next, stepped, after⟩ := run_cons_ok.mp ran
    exact ih (preserved state input next start stepped) after

/-- Steps that fail in one way only, or keep what the start has, make a run that does so. -/
theorem run_or_error {error : Error}
    (stepped : ∀ state input, Invariant state → step state input = .error error ∨
      ∃ next, step state input = .ok next ∧ Invariant next) {state : State}
    (start : Invariant state) (inputs : List Input) :
    run step state inputs = .error error ∨
      ∃ final, run step state inputs = .ok final ∧ Invariant final := by
  induction inputs generalizing state with
  | nil => exact .inr ⟨state, rfl, start⟩
  | cons input rest ih =>
    rw [run]
    obtain failed | ⟨next, succeeded, kept⟩ := stepped state input start
    · rw [failed]
      exact .inl rfl
    · rw [succeeded]
      exact ih kept

variable (step) in
/-- A property of the state before a step, the input and the state after it holds at every step
of a run. -/
def Along (Property : State → Input → State → Prop) : State → List Input → Prop
  | _, [] => True
  | state, input :: rest =>
    ∀ next, step state input = .ok next → Property state input next ∧ Along Property next rest

/-- What the start has and every step with some property preserves holds at the end of a run along
which steps have the property. -/
theorem run_invariant_along {Property : State → Input → State → Prop}
    (preserved : ∀ state input next, Invariant state → Property state input next →
      step state input = .ok next → Invariant next) {state final : State} {inputs : List Input}
    (start : Invariant state) (along : Along step Property state inputs)
    (ran : run step state inputs = .ok final) : Invariant final := by
  induction inputs generalizing state with
  | nil =>
    rw [run, Except.ok.injEq] at ran
    exact ran ▸ start
  | cons input rest ih =>
    obtain ⟨next, stepped, after⟩ := run_cons_ok.mp ran
    obtain ⟨property, along⟩ := along next stepped
    exact ih (preserved state input next start property stepped) along after

/-- Two properties of steps hold along the same runs when they agree at the states of an
invariant, and the invariant is only needed as long as they hold. -/
theorem along_iff {First Second : State → Input → State → Prop}
    (agree : ∀ state input next, Invariant state → step state input = .ok next →
      (First state input next ↔ Second state input next))
    (preserved : ∀ state input next, Invariant state → step state input = .ok next →
      First state input next → Invariant next) {state : State} (start : Invariant state)
    (inputs : List Input) : Along step First state inputs ↔ Along step Second state inputs := by
  induction inputs generalizing state with
  | nil => exact Iff.rfl
  | cons input rest ih =>
    refine forall_congr' fun next => forall_congr' fun stepped => ?_
    rw [← agree state input next start stepped]
    refine and_congr_right fun first => ?_
    exact ih (preserved state input next start stepped first)

variable (step) in
/-- A property of the state before a step, the input and the result of the step holds at every step
of a run. -/
def Through (Property : State → Input → Except Error State → Prop) : State → List Input → Prop
  | _, [] => True
  | state, input :: rest => Property state input (step state input) ∧
    ∀ next, step state input = .ok next → Through Property next rest

/-- Two properties of steps and their results hold through the same runs when they agree at the
states of an invariant, and the invariant is only needed as long as they hold. -/
theorem through_iff {First Second : State → Input → Except Error State → Prop}
    (agree : ∀ state input, Invariant state →
      (First state input (step state input) ↔ Second state input (step state input)))
    (preserved : ∀ state input next, Invariant state → First state input (step state input) →
      step state input = .ok next → Invariant next) {state : State} (start : Invariant state)
    (inputs : List Input) : Through step First state inputs ↔ Through step Second state inputs := by
  induction inputs generalizing state with
  | nil => exact Iff.rfl
  | cons input rest ih =>
    unfold Through
    rw [← agree state input start]
    refine and_congr_right fun first => forall_congr' fun next => forall_congr' fun stepped => ?_
    exact ih (preserved state input next start first stepped)

end Run
