/-
This file runs a loop over a resumable iteration: a cursor that is advanced by a
fallible `next`, read for its current value, and tested for the end. The loop
body may return early. What `next` does is described once, by the list of values
it yields; a loop with enough turns is then a recursion over that list.
-/

import Mathlib

namespace Iterate

variable {Error Cursor Value State Result : Type*}

/-- A resumable iteration. -/
structure Iteration (Error Cursor Value : Type*) where
  next : Cursor → Except Error Cursor
  stopped : Cursor → Bool
  value : Cursor → Value

/-- Advance, stop at the end, run the body on the current value and repeat. The body either
returns from the loop with `.inl` or goes on with `.inr`. A loop that is out of turns
fails. -/
def forEach (iteration : Iteration Error Cursor Value) (outOfTurns : Error)
    (body : State → Value → Except Error (Result ⊕ State)) :
    Nat → State → Cursor → Except Error (Result ⊕ State)
  | 0, _, _ => .error outOfTurns
  | turns + 1, state, cursor =>
    match iteration.next cursor with
    | .error error => .error error
    | .ok cursor =>
      if iteration.stopped cursor then .ok (.inr state)
      else
        match body state (iteration.value cursor) with
        | .error error => .error error
        | .ok (.inl result) => .ok (.inl result)
        | .ok (.inr state) => forEach iteration outOfTurns body turns state cursor

/-- The same loop over a list of values. -/
def each (body : State → Value → Except Error (Result ⊕ State)) :
    State → List Value → Except Error (Result ⊕ State)
  | state, [] => .ok (.inr state)
  | state, value :: rest =>
    match body state value with
    | .error error => .error error
    | .ok (.inl result) => .ok (.inl result)
    | .ok (.inr state) => each body state rest

/-- A body that neither fails nor returns folds the values into the state. -/
theorem each_of_total {body : State → Value → Except Error (Result ⊕ State)}
    (change : State → Value → State)
    (total : ∀ state value, body state value = .ok (.inr (change state value))) (state : State)
    (values : List Value) : each body state values = .ok (.inr (values.foldl change state)) := by
  induction values generalizing state with
  | nil => rfl
  | cons value rest ih =>
    rw [each, total]
    exact ih (change state value)

/-- From this cursor on, `next` yields these values and then stops. -/
inductive Yields (iteration : Iteration Error Cursor Value) : Cursor → List Value → Prop
  | done {cursor last : Cursor} (next : iteration.next cursor = .ok last)
      (stopped : iteration.stopped last = true) : Yields iteration cursor []
  | value {cursor after : Cursor} {rest : List Value} (next : iteration.next cursor = .ok after)
      (running : iteration.stopped after = false) (tail : Yields iteration after rest) :
      Yields iteration cursor (iteration.value after :: rest)

/-- A cursor stands, under `At`, before a list of abstract values, and a step takes the first one
off that list. -/
def Simulates {Abstract : Type*} (iteration : Iteration Error Cursor Value)
    (view : Value → Abstract) (At : Cursor → List Abstract → Prop) : Prop :=
  ∀ cursor abstracts, At cursor abstracts → ∃ after, iteration.next cursor = .ok after ∧
    (iteration.stopped after = true ∧ abstracts = [] ∨ iteration.stopped after = false ∧
        ∃ rest, abstracts = view (iteration.value after) :: rest ∧ At after rest)

variable {iteration : Iteration Error Cursor Value} {cursor : Cursor}

/-- Such an iteration yields values with these abstractions. -/
theorem Simulates.yields {Abstract : Type*} {view : Value → Abstract}
    {At : Cursor → List Abstract → Prop} (step : Simulates iteration view At)
    {abstracts : List Abstract} (start : At cursor abstracts) :
    ∃ values : List Value, values.map view = abstracts ∧ Yields iteration cursor values := by
  induction abstracts generalizing cursor with
  | nil =>
    obtain ⟨_, next, ⟨stopped, _⟩ | ⟨_, rest, same, _⟩⟩ := step cursor [] start
    · exact ⟨[], rfl, .done next stopped⟩
    · cases same
  | cons first rest ih =>
    obtain ⟨after, next, ⟨_, same⟩ | ⟨running, _, same, before⟩⟩ := step cursor _ start
    · cases same
    · obtain ⟨rfl, rfl⟩ := List.cons.inj same
      obtain ⟨values, views, yields⟩ := ih before
      exact ⟨iteration.value after :: values, by rw [List.map_cons, views],
        .value next running yields⟩

theorem Simulates.yields_self {At : Cursor → List Value → Prop} (step : Simulates iteration id At)
    {values : List Value} (start : At cursor values) : Yields iteration cursor values := by
  obtain ⟨values, same, yields⟩ := step.yields start
  rw [List.map_id] at same
  exact same ▸ yields

/-- A loop with a turn for every value and one for the end runs over the values. -/
theorem forEach_of_yields {values : List Value} (yields : Yields iteration cursor values)
    (outOfTurns : Error) (body : State → Value → Except Error (Result ⊕ State)) {turns : Nat}
    (enough : values.length < turns) (state : State) :
    forEach iteration outOfTurns body turns state cursor = each body state values := by
  induction yields generalizing turns state with
  | done next stopped =>
    obtain ⟨turns, rfl⟩ := Nat.exists_eq_add_of_lt enough
    simp [forEach, each, next, stopped]
  | @value cursor after rest next running tail ih =>
    obtain ⟨turns, rfl⟩ : ∃ fewer, turns = fewer + 1 := ⟨turns - 1, by omega⟩
    have fewer : rest.length < turns := by
      rw [List.length_cons] at enough
      omega
    rw [forEach, next, each]
    simp only [running]
    cases body state (iteration.value after) with
    | error error => rfl
    | ok result =>
      cases result with
      | inl result => rfl
      | inr state => exact ih fewer state

end Iterate
