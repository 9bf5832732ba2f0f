/-
This file is about two ways to keep a list in an array. A ring keeps the items
from a position on, modulo the number of its cells, so that the position may
grow without end; putting an item behind the others leaves them alone as long as
there is a free cell. A chain keeps for every index the next one, and has a head
and a length; an index that is not in the chain may be put in front of it.
-/

import Mathlib

namespace Ring

variable {Item : Type*}

/-- The items from a position on, in a ring of `size` cells. -/
def contents (cells : Nat → Item) (size : Nat) : Nat → Nat → List Item
  | _, 0 => []
  | start, count + 1 => cells (start % size) :: contents cells size (start + 1) count

variable {cells : Nat → Item} {size start count : Nat}

@[simp] theorem length_contents : (contents cells size start count).length = count := by
  induction count generalizing start with
  | zero => rfl
  | succ count ih => rw [contents, List.length_cons, ih]

/-- Positions with the same remainder hold the same items. -/
theorem contents_congr_mod {other : Nat} (same : start % size = other % size) :
    contents cells size start count = contents cells size other count := by
  induction count generalizing start other with
  | zero => rfl
  | succ count ih =>
    rw [contents, contents, same, ih (Nat.ModEq.add_right 1 same)]

/-- A cell of no item may be changed. -/
theorem contents_congr {changed : Nat → Item}
    (same : ∀ i < count, changed ((start + i) % size) = cells ((start + i) % size)) :
    contents changed size start count = contents cells size start count := by
  induction count generalizing start with
  | zero => rfl
  | succ count ih =>
    have rest : ∀ i < count, changed ((start + 1 + i) % size) = cells ((start + 1 + i) % size) :=
      fun i small => by
        rw [add_assoc, add_comm 1]
        exact same (i + 1) (Nat.succ_lt_succ small)
    rw [contents, ih rest]
    exact congrArg (· :: _) (same 0 (Nat.succ_pos _))

theorem contents_succ : contents cells size start (count + 1) =
    contents cells size start count ++ [cells ((start + count) % size)] := by
  induction count generalizing start with
  | zero => rfl
  | succ count ih =>
    rw [contents, ih, contents, List.cons_append, add_right_comm, add_assoc]

/-- Different positions of a ring that is not full are different cells. -/
theorem cell_ne {i j : Nat} (less : i < j) (room : j < size) :
    (start + i) % size ≠ (start + j) % size := by
  intro same
  have equal : i % size = j % size := Nat.ModEq.add_left_cancel' start same
  rw [Nat.mod_eq_of_lt (less.trans room), Nat.mod_eq_of_lt room] at equal
  exact less.ne equal

/-- An item is put behind the others. -/
theorem contents_push (room : count < size) (item : Item) :
    contents (Function.update cells ((start + count) % size) item) size start (count + 1) =
      contents cells size start count ++ [item] := by
  rw [contents_succ, Function.update_self, contents_congr fun i small => ?_]
  exact Function.update_of_ne (cell_ne small room) _ _

end Ring

namespace Chain

/-- The indices of a chain of some length. -/
def chain (next : Nat → Nat) : Nat → Nat → List Nat
  | _, 0 => []
  | head, count + 1 => head :: chain next (next head) count

variable {next changed : Nat → Nat} {head count : Nat}

@[simp] theorem length_chain : (chain next head count).length = count := by
  induction count generalizing head with
  | zero => rfl
  | succ count ih => rw [chain, List.length_cons, ih]

/-- The links of other indices do not matter. -/
theorem chain_congr (same : ∀ index ∈ chain next head count, changed index = next index) :
    chain changed head count = chain next head count := by
  induction count generalizing head with
  | zero => rfl
  | succ count ih =>
    rw [chain, List.forall_mem_cons] at same
    rw [chain, chain, same.1, ih same.2]

/-- An index is put in front of a chain it is not in. -/
theorem chain_push {index : Nat} (fresh : index ∉ chain next head count) :
    chain (Function.update next index head) index (count + 1) = index :: chain next head count := by
  rw [chain, Function.update_self, chain_congr fun other member => ?_]
  refine Function.update_of_ne ?_ _ _
  rintro rfl
  exact fresh member

theorem getElem?_chain {i : Nat} (small : i < count) :
    (chain next head count)[i]? = some (next^[i] head) := by
  induction count generalizing head i with
  | zero => cases small
  | succ count ih =>
    cases i with
    | zero => rfl
    | succ i =>
      rw [chain, List.getElem?_cons_succ, ih (Nat.lt_of_succ_lt_succ small),
        Function.iterate_succ_apply]

/-- Links to the next number make a chain of numbers. -/
theorem chain_eq_range' (step : ∀ index < head + count - 1, head ≤ index → next index = index + 1) :
    chain next head count = List.range' head count := by
  induction count generalizing head with
  | zero => rfl
  | succ count ih =>
    refine congrArg (head :: ·) ?_
    cases count with
    | zero => rfl
    | succ count =>
      rw [step head (by omega) le_rfl]
      exact ih fun index small large => step index (by omega) (by omega)

end Chain
