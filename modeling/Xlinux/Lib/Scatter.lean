/-
This file is about bytes that are stored over a list of addresses which need not
follow each other. Storing at consecutive addresses is a special case, and
storing a list in two parts is the same as storing it at once.
-/

import Xlinux.Lib.Bytes

namespace Bytes

open List

/-- The addresses from one on. -/
def addresses : UInt64 → Nat → List UInt64
  | _, 0 => []
  | base, size + 1 => base :: addresses (base + 1) size

/-- Store bytes at a list of addresses, as long as there are both. -/
def scatter : List UInt64 → List UInt8 → Memory → Memory
  | addr :: targets, byte :: bytes, memory => scatter targets bytes (put memory addr byte)
  | _, _, memory => memory

@[simp] theorem length_addresses (base : UInt64) (size : Nat) :
    (addresses base size).length = size := by
  induction size generalizing base with
  | zero => rfl
  | succ size ih => rw [addresses, length_cons, ih]

theorem addresses_add (base : UInt64) (size more : Nat) :
    addresses base (size + more) =
      addresses base size ++ addresses (base + UInt64.ofNat size) more := by
  induction size generalizing base with
  | zero =>
    rw [zero_add, show UInt64.ofNat 0 = 0 from rfl, UInt64.add_zero]
    rfl
  | succ size ih =>
    rw [add_right_comm, addresses, ih, add_one_add_ofNat]
    rfl

section Scatter

variable {targets more : List UInt64} {bytes rest : List UInt8} {memory : Memory}

@[simp] theorem scatter_nil (targets : List UInt64) (memory : Memory) :
    scatter targets [] memory = memory := by
  cases targets <;> rfl

theorem store_eq_scatter (bytes : List UInt8) (base : UInt64) (memory : Memory) :
    store bytes base memory = scatter (addresses base bytes.length) bytes memory := by
  induction bytes generalizing base memory with
  | nil => rfl
  | cons byte bytes ih =>
    rw [store, ih]
    rfl

/-- A list that is as long as its targets, and then another one. -/
theorem scatter_append (same : targets.length = bytes.length) :
    scatter (targets ++ more) (bytes ++ rest) memory =
      scatter more rest (scatter targets bytes memory) := by
  induction targets generalizing bytes memory with
  | nil =>
    rw [length_eq_zero_iff.mp same.symm]
    rfl
  | cons addr targets ih =>
    cases bytes with
    | nil => cases same
    | cons byte bytes => exact ih (Nat.succ.inj same)

/-- Only as many targets count as there are bytes. -/
theorem scatter_take (targets : List UInt64) (bytes : List UInt8) (memory : Memory) :
    scatter (targets.take bytes.length) bytes memory = scatter targets bytes memory := by
  induction targets generalizing bytes memory with
  | nil => rw [take_nil]
  | cons addr targets ih =>
    cases bytes with
    | nil => rfl
    | cons byte bytes => exact ih bytes _

theorem scatter_take_bytes (targets : List UInt64) (bytes : List UInt8) (count : Nat)
    (memory : Memory) :
    scatter targets (bytes.take count) memory = scatter (targets.take count) bytes memory := by
  induction targets generalizing bytes count memory with
  | nil => rw [take_nil]; rfl
  | cons addr targets ih =>
    cases count with
    | zero => rw [take_zero]; rfl
    | succ count =>
      cases bytes with
      | nil => rw [take_nil, scatter_nil, scatter_nil]
      | cons byte bytes => exact ih bytes count _

/-- A range of addresses takes its bytes off the list, and the rest goes on. -/
theorem scatter_addresses (base : UInt64) (size : Nat) (tail : List UInt64) (bytes : List UInt8)
    (memory : Memory) : scatter (addresses base size ++ tail) bytes memory =
      scatter tail (bytes.drop (min bytes.length size))
        (store (bytes.take (min bytes.length size)) base memory) := by
  rcases le_total size bytes.length with enough | short
  · rw [min_eq_right enough, store_eq_scatter, length_take_of_le enough]
    nth_rewrite 1 [← take_append_drop size bytes]
    refine scatter_append ?_
    rw [length_addresses, length_take_of_le enough]
  · obtain ⟨_, isSize⟩ := Nat.exists_eq_add_of_le short
    rw [min_eq_left short, drop_length, take_length, scatter_nil, store_eq_scatter,
      isSize, addresses_add, append_assoc, ← scatter_take]
    rw [take_left' (length_addresses ..)]

end Scatter

end Bytes
