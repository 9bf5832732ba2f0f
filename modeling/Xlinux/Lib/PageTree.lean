/-
This file is about page tables in a memory: a table is a row of entries, an entry
is empty, refers to a table of the next level or is an entry of its own, and the
indices of an address lead from the root through one table of every level. As
long as no table is reached in two ways, a write to an entry changes what one
address finds, and linking an empty table changes nothing.
-/

import Mathlib

namespace PageTree

open List
open Function (update)

/-- Where the entries of a table are, and what an entry refers to. -/
structure Layout (Word Cell Table Index : Type) where
  cell : Table → Index → Cell
  cell_inj : ∀ {first second : Table} {one other : Index},
    cell first one = cell second other → first = second ∧ one = other
  child : Word → Option Table
  empty : Word
  child_empty : child empty = none

variable {Word Cell Table Index : Type} (layout : Layout Word Cell Table Index)

/-- The table that a path leads to. -/
def table (memory : Cell → Word) : Table → List Index → Option Table
  | root, [] => some root
  | root, index :: rest =>
    (layout.child (memory (layout.cell root index))).bind fun next => table memory next rest

/-- An entry that an address ends at, with the indices that are left. -/
def ended [DecidableEq Word] (entry : Word) (rest : List Index) : Option (Word × List Index) :=
  if entry = layout.empty then none else some (entry, rest)

/-- The entry that an address finds, with the indices that are left when a table of a higher
level has it. -/
def find [DecidableEq Word] (memory : Cell → Word) : Table → List Index → Option (Word × List Index)
  | _, [] => none
  | root, [index] => ended layout (memory (layout.cell root index)) []
  | root, index :: second :: rest =>
    match layout.child (memory (layout.cell root index)) with
    | some next => find memory next (second :: rest)
    | none => ended layout (memory (layout.cell root index)) (second :: rest)

/-- The tables of the first levels are all different. -/
def Proper (memory : Cell → Word) (root : Table) (depth : Nat) : Prop :=
  ∀ first second reached, first.length < depth → second.length < depth →
    table layout memory root first = some reached →
    table layout memory root second = some reached → first = second

section Walk

variable {layout} {memory after : Cell → Word} {root reached : Table} {index : Index}
  {path rest : List Index}

theorem table_append (path rest : List Index) : table layout memory root (path ++ rest) =
    (table layout memory root path).bind fun next => table layout memory next rest := by
  induction path generalizing root with
  | nil => rfl
  | cons index path ih =>
    rw [cons_append, table, table, Option.bind_assoc]
    exact congrArg _ (funext fun next => ih)

/-- The entries along a path are the same. -/
def Agree (layout : Layout Word Cell Table Index) (memory after : Cell → Word) (root : Table)
    (path : List Index) : Prop :=
  ∀ before index reached, before ++ [index] <+: path →
    table layout memory root before = some reached →
    after (layout.cell reached index) = memory (layout.cell reached index)

theorem Agree.head (agree : Agree layout memory after root (index :: path)) :
    after (layout.cell root index) = memory (layout.cell root index) :=
  agree [] index root (by simp) rfl

theorem Agree.tail (agree : Agree layout memory after root (index :: path)) {next : Table}
    (child : layout.child (memory (layout.cell root index)) = some next) :
    Agree layout memory after next path := by
  intro before other reached along found
  refine agree (index :: before) other reached ((prefix_cons_inj index).mpr along) ?_
  rw [table, child]
  exact found

/-- What a path leads to depends on the entries along it. -/
theorem Agree.table (agree : Agree layout memory after root path) :
    table layout after root path = table layout memory root path := by
  induction path generalizing root with
  | nil => rfl
  | cons index path ih =>
    rw [PageTree.table, PageTree.table, agree.head]
    cases next : layout.child (memory (layout.cell root index)) with
    | none => rfl
    | some => exact ih (agree.tail next)

variable [DecidableEq Word]

theorem find_child {second : Index} {next : Table}
    (child : layout.child (memory (layout.cell root index)) = some next) :
    find layout memory root (index :: second :: rest) =
      find layout memory next (second :: rest) := by
  rw [find, child]

theorem find_append (found : table layout memory root path = some reached) (index : Index)
    (rest : List Index) : find layout memory root (path ++ index :: rest) =
      find layout memory reached (index :: rest) := by
  induction path generalizing root with
  | nil =>
    cases found
    rfl
  | cons first path ih =>
    rw [table, Option.bind_eq_some_iff] at found
    obtain ⟨_, child, found⟩ := found
    refine Eq.trans ?_ (ih found)
    cases path with
    | nil => exact find_child child
    | cons second path => exact find_child child

theorem Agree.find (agree : Agree layout memory after root path) :
    find layout after root path = find layout memory root path := by
  induction path generalizing root with
  | nil => rfl
  | cons index path ih =>
    have entry := agree.head
    cases path with
    | nil => rw [PageTree.find, PageTree.find, entry]
    | cons second path =>
      rw [PageTree.find, PageTree.find, entry]
      cases next : layout.child (memory (layout.cell root index)) with
      | none => rfl
      | some => exact ih (agree.tail next)

/-- An address that finds nothing gets to a table through every entry that is not empty. -/
theorem child_of_find_eq_none {second : Index}
    (nothing : find layout memory root (index :: second :: rest) = none)
    (filled : memory (layout.cell root index) ≠ layout.empty) :
    ∃ next, layout.child (memory (layout.cell root index)) = some next := by
  cases child : layout.child (memory (layout.cell root index)) with
  | some next => exact ⟨next, rfl⟩
  | none =>
    rw [find, child, ended] at nothing
    simp only [if_neg filled] at nothing
    cases nothing

theorem find_of_empty (blank : memory (layout.cell root index) = layout.empty) :
    find layout memory root (index :: rest) = none := by
  cases rest with
  | nil => rw [find, blank, ended, if_pos rfl]
  | cons second rest => rw [find, blank, layout.child_empty, ended, if_pos rfl]

end Walk

/-- A path leads through no entry of the table at its end. -/
theorem not_through_of_length_le {place path : List Index} {index : Index}
    (short : path.length ≤ place.length) : ¬ place ++ [index] <+: path := by
  intro along
  have long := along.length_le
  rw [length_append, length_singleton] at long
  omega

section Write

variable {layout} [DecidableEq Cell] {memory : Cell → Word}
  {root reached : Table} {depth : Nat} {place : List Index} {index : Index}

variable (proper : Proper layout memory root depth)
  (found : table layout memory root place = some reached) (value : Word)

include proper found

/-- A write to an entry is seen along the paths through it. -/
theorem Proper.agree (short : place.length < depth) {path : List Index}
    (bound : path.length ≤ depth) (elsewhere : ¬ place ++ [index] <+: path) :
    Agree layout memory (update memory (layout.cell reached index) value) root path := by
  intro before other next along leads
  refine Function.update_of_ne (fun same => elsewhere ?_) _ _
  obtain ⟨rfl, rfl⟩ := layout.cell_inj same
  have long := along.length_le
  rw [length_append, length_singleton] at long
  rw [proper place before next short (by omega) found leads]
  exact along

/-- A write to an entry of the last level changes what its own address finds. -/
theorem Proper.find_write [DecidableEq Word] [DecidableEq Index] (last : place.length + 1 = depth)
    {path : List Index} (bound : path.length = depth) :
    find layout (update memory (layout.cell reached index) value) root path =
      if path = place ++ [index] then
        ended layout value []
      else find layout memory root path := by
  have through : place ++ [index] <+: path → path = place ++ [index] := fun along => by
    refine (along.eq_of_length ?_).symm
    rw [length_append, length_singleton, bound, last]
  split
  · next same =>
    have kept := proper.agree found value (by omega) (by omega)
      (@not_through_of_length_le _ _ _ index le_rfl)
    rw [same, find_append (kept.table.trans found), PageTree.find, Function.update_self]
  · next other =>
    exact (proper.agree found value (by omega) bound.le fun along => other (through along)).find

/-- A write to an entry of the last level keeps the tables. -/
theorem Proper.table_write (last : place.length + 1 = depth) {path : List Index}
    (bound : path.length < depth) :
    table layout (update memory (layout.cell reached index) value) root path =
      table layout memory root path :=
  (proper.agree found value (by omega) bound.le (not_through_of_length_le (by omega))).table

theorem Proper.write (last : place.length + 1 = depth) :
    Proper layout (update memory (layout.cell reached index) value) root depth := by
  intro first second next firstBound secondBound leadsFirst leadsSecond
  rw [proper.table_write found value last firstBound] at leadsFirst
  rw [proper.table_write found value last secondBound] at leadsSecond
  exact proper first second next firstBound secondBound leadsFirst leadsSecond

end Write

section Link

variable {layout} {memory after : Cell → Word} {root reached fresh : Table}
  {depth : Nat} {place : List Index} {index : Index}

/-- A table that no path leads to gets empty entries, and an empty entry refers to it then. -/
structure Links (layout : Layout Word Cell Table Index) (memory after : Cell → Word)
    (reached fresh : Table) (index : Index) : Prop where
  blank : memory (layout.cell reached index) = layout.empty
  refers : layout.child (after (layout.cell reached index)) = some fresh
  cleared : ∀ other, after (layout.cell fresh other) = layout.empty
  others : ∀ next other, next ≠ fresh → (next ≠ reached ∨ other ≠ index) →
    after (layout.cell next other) = memory (layout.cell next other)

variable (links : Links layout memory after reached fresh index)
  (proper : Proper layout memory root depth)
  (found : table layout memory root place = some reached) (short : place.length + 1 < depth)
  (unused : ∀ path, path.length < depth → table layout memory root path ≠ some fresh)

include links proper found short unused

theorem Links.agree {path : List Index} (bound : path.length ≤ depth)
    (elsewhere : ¬ place ++ [index] <+: path) : Agree layout memory after root path := by
  intro before other next along leads
  have long := along.length_le
  rw [length_append, length_singleton] at long
  refine links.others next other (fun same => unused before (by omega) (same ▸ leads)) ?_
  by_contra both
  obtain ⟨rfl, rfl⟩ : next = reached ∧ other = index := by
    simpa only [not_or, not_not] using both
  rw [proper before place next (by omega) (by omega) leads found] at along
  exact elsewhere along

theorem Links.table_place : table layout after root place = some reached :=
  (links.agree proper found short unused (by omega)
    (not_through_of_length_le le_rfl)).table.trans found

theorem Links.table_new : table layout after root (place ++ [index]) = some fresh := by
  rw [table_append, links.table_place proper found short unused, Option.bind_some, table,
    links.refers]
  rfl

/-- Below the new table there is nothing, so the address that gets to it finds nothing, as
before; other addresses do not see it. -/
theorem Links.find [DecidableEq Word] {path : List Index} (bound : path.length = depth) :
    find layout after root path = find layout memory root path := by
  by_cases through : place ++ [index] <+: path
  · obtain ⟨rest, rfl⟩ := through
    cases rest with
    | nil =>
      rw [append_nil, length_append, length_singleton] at bound
      omega
    | cons second rest =>
      have before :
          PageTree.find layout memory root (place ++ [index] ++ second :: rest) = none := by
        rw [append_assoc]
        exact (find_append found index (second :: rest)).trans (find_of_empty links.blank)
      rw [before, find_append (links.table_new proper found short unused)]
      exact find_of_empty (links.cleared second)
  · exact (links.agree proper found short unused bound.le through).find

/-- The new table is the only one that is reached in addition. -/
theorem Links.table_cases {path : List Index} {next : Table} (bound : path.length < depth)
    (leads : table layout after root path = some next) :
    path = place ++ [index] ∧ next = fresh ∨ table layout memory root path = some next := by
  by_cases through : place ++ [index] <+: path
  · obtain ⟨rest, rfl⟩ := through
    rw [table_append, links.table_new proper found short unused, Option.bind_some] at leads
    cases rest with
    | nil =>
      cases leads
      exact .inl ⟨append_nil _, rfl⟩
    | cons second rest =>
      rw [table, links.cleared, layout.child_empty] at leads
      cases leads
  · exact .inr ((links.agree proper found short unused bound.le through).table.symm.trans leads)

/-- What a path led to, it still leads to. -/
theorem Links.table_of_table {path : List Index} {next : Table} (bound : path.length < depth)
    (leads : table layout memory root path = some next) :
    table layout after root path = some next := by
  have elsewhere : ¬ place ++ [index] <+: path := by
    rintro ⟨_, rfl⟩
    rw [table_append, table_append, found, Option.bind_some, table, links.blank,
      layout.child_empty] at leads
    cases leads
  exact (links.agree proper found short unused bound.le elsewhere).table.trans leads

theorem Links.keepsProper : Proper layout after root depth := by
  intro first second next firstBound secondBound leadsFirst leadsSecond
  have cases : ∀ {path : List Index}, path.length < depth →
      table layout after root path = some next → _ :=
    links.table_cases proper found short unused
  rcases cases firstBound leadsFirst with ⟨newFirst, isFresh⟩ | oldFirst
  · rcases cases secondBound leadsSecond with ⟨newSecond, _⟩ | oldSecond
    · rw [newFirst, newSecond]
    · exact absurd (isFresh ▸ oldSecond) (unused second secondBound)
  · rcases cases secondBound leadsSecond with ⟨_, isFresh⟩ | oldSecond
    · exact absurd (isFresh ▸ oldFirst) (unused first firstBound)
    · exact proper first second next firstBound secondBound oldFirst oldSecond

end Link

end PageTree
