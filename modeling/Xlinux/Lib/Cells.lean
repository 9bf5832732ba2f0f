/-
This file is about parts of a memory that are known cell by cell. The cells form
a multiset, so that two parts can be put together and a part can be split off
again; a write to a cell of one part leaves the other part alone.
-/

import Mathlib

namespace Cells

open Multiset

variable {Addr Value : Type}

/-- The cells are at different places, these places are usable, and the memory has the values of
the cells there. -/
structure Owns (usable : Addr → Prop) (memory : Addr → Value) (cells : Multiset (Addr × Value)) :
    Prop where
  nodup : (cells.map Prod.fst).Nodup
  usable : ∀ cell ∈ cells, usable cell.1
  holds : ∀ cell ∈ cells, memory cell.1 = cell.2

/-- One cell. -/
def cell (addr : Addr) (value : Value) : Multiset (Addr × Value) := {(addr, value)}

variable {usable : Addr → Prop} {memory : Addr → Value} {addr other : Addr} {value next : Value}
  {rest : Multiset (Addr × Value)}

section

variable (owns : Owns usable memory (cell addr value + rest))

include owns

theorem Owns.read : memory addr = value :=
  owns.holds (addr, value) (mem_add.mpr (.inl (mem_singleton_self _)))

theorem Owns.usable_addr : usable addr :=
  owns.usable (addr, value) (mem_add.mpr (.inl (mem_singleton_self _)))

theorem Owns.not_mem : addr ∉ rest.map Prod.fst := by
  have nodup := owns.nodup
  rw [cell, singleton_add, map_cons, nodup_cons] at nodup
  exact nodup.1

omit owns in
theorem Owns.ne (owns : Owns usable memory (cell addr value + (cell other next + rest))) :
    addr ≠ other := by
  rintro rfl
  refine owns.not_mem ?_
  rw [map_add, mem_add]
  exact .inl (by simp [cell])

/-- A write changes the value of one cell. -/
theorem Owns.write [DecidableEq Addr] (next : Value) :
    Owns usable (Function.update memory addr next) (cell addr next + rest) := by
  have outside := owns.not_mem
  constructor
  case nodup => simpa [cell] using owns.nodup
  case usable =>
    intro one member
    rcases mem_add.mp member with same | inRest
    · rw [cell, mem_singleton] at same
      rw [same]
      exact owns.usable_addr
    · exact owns.usable one (mem_add.mpr (.inr inRest))
  case holds =>
    intro one member
    rcases mem_add.mp member with same | inRest
    · rw [cell, mem_singleton] at same
      rw [same, Function.update_self]
    · have different : one.1 ≠ addr := by
        intro same
        exact outside (same ▸ mem_map_of_mem Prod.fst inRest)
      rw [Function.update_of_ne different]
      exact owns.holds one (mem_add.mpr (.inr inRest))

end

/-- One more cell is known. -/
theorem Owns.add (owns : Owns usable memory rest) (isUsable : usable addr)
    (fresh : addr ∉ rest.map Prod.fst) : Owns usable memory (cell addr (memory addr) + rest) := by
  rw [cell, singleton_add]
  constructor
  case nodup =>
    rw [map_cons]
    exact nodup_cons.mpr ⟨fresh, owns.nodup⟩
  case usable => exact forall_mem_cons.mpr ⟨isUsable, owns.usable⟩
  case holds => exact forall_mem_cons.mpr ⟨rfl, owns.holds⟩

/-- A write to a cell that is not known makes it known. -/
theorem Owns.fresh [DecidableEq Addr] (owns : Owns usable memory rest) (isUsable : usable addr)
    (fresh : addr ∉ rest.map Prod.fst) (value : Value) :
    Owns usable (Function.update memory addr value) (cell addr value + rest) := by
  have written := (owns.add isUsable fresh).write value
  exact written

/-- Part of what is known. -/
theorem Owns.part {part : Multiset (Addr × Value)} (owns : Owns usable memory (part + rest)) :
    Owns usable memory part where
  nodup := by
    have nodup := owns.nodup
    rw [map_add, nodup_add] at nodup
    exact nodup.1
  usable one member := owns.usable one (mem_add.mpr (.inl member))
  holds one member := owns.holds one (mem_add.mpr (.inl member))

end Cells
