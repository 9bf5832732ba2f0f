/-
This file is about a memory of bytes with 64-bit addresses: filling a range with
one byte, copying one range to another, byte by byte from the low end, and storing
a list of bytes. Ranges do not wrap around the end of the address space, and a
copy reads what was there before when its two ranges are apart.
-/

import Mathlib

namespace Bytes

open UInt64

variable {addr dest src : UInt64} {count : Nat} {base : UInt64}

/-- A byte at every address. -/
abbrev Memory := UInt64 → UInt8

/-- The address is one of `size` addresses from `base` on. -/
def Within (base : UInt64) (size : Nat) (addr : UInt64) : Prop :=
  base.toNat ≤ addr.toNat ∧ addr.toNat < base.toNat + size

instance (base : UInt64) (size : Nat) (addr : UInt64) : Decidable (Within base size addr) :=
  inferInstanceAs (Decidable (_ ∧ _))

/-- Write one byte. -/
def put (memory : Memory) (addr : UInt64) (value : UInt8) : Memory :=
  fun other => if other = addr then value else memory other

/-- `memset`. -/
def fill (value : UInt8) : Nat → UInt64 → Memory → Memory
  | 0, _, memory => memory
  | count + 1, base, memory => fill value count (base + 1) (put memory base value)

/-- `memcpy`. -/
def copy : Nat → UInt64 → UInt64 → Memory → Memory
  | 0, _, _, memory => memory
  | count + 1, dest, src, memory => copy count (dest + 1) (src + 1) (put memory dest (memory src))

theorem not_within_zero : ¬Within base 0 addr := by
  rintro ⟨_, _⟩
  omega

theorem toNat_add_one (room : base.toNat + (count + 1) < 2 ^ 64) :
    (base + 1).toNat = base.toNat + 1 := by
  rw [UInt64.toNat_add, UInt64.toNat_one, Nat.mod_eq_of_lt (by omega)]

theorem add_one_add_ofNat (base : UInt64) (step : Nat) :
    base + 1 + UInt64.ofNat step = base + UInt64.ofNat (step + 1) := by
  rw [ofNat_add]
  grind

/-- The address is the first of a range, or one of the rest. -/
theorem within_succ (room : base.toNat + (count + 1) < 2 ^ 64) :
    Within base (count + 1) addr ↔ addr = base ∨ Within (base + 1) count addr := by
  rw [Within, Within, toNat_add_one room, ← UInt64.toNat_inj]
  omega

theorem not_within_self (room : base.toNat + (count + 1) < 2 ^ 64) :
    ¬Within (base + 1) count base := by
  rw [Within, toNat_add_one room]
  omega

theorem fill_apply {value : UInt8} (room : base.toNat + count < 2 ^ 64) (memory : Memory)
    (addr : UInt64) :
    fill value count base memory addr = if Within base count addr then value else memory addr := by
  induction count generalizing base memory with
  | zero => rw [if_neg not_within_zero, fill]
  | succ count ih =>
    have next := toNat_add_one room
    rw [fill, ih (by omega)]
    simp only [within_succ room, put]
    by_cases first : addr = base
    · subst first
      rw [if_neg (not_within_self room), if_pos rfl, if_pos (.inl rfl)]
    · simp only [first, false_or, if_false]

/-- A copy writes its destination only. -/
theorem copy_outside (room : dest.toNat + count < 2 ^ 64) (src : UInt64) (memory : Memory)
    (outside : ¬Within dest count addr) : copy count dest src memory addr = memory addr := by
  induction count generalizing dest src memory with
  | zero => rfl
  | succ count ih =>
    have next := toNat_add_one room
    rw [within_succ room, not_or] at outside
    rw [copy, ih (by omega) _ _ outside.2, put, if_neg outside.1]

theorem within_source (inside : Within dest count addr)
    (roomSrc : src.toNat + count < 2 ^ 64) : Within src count (src + (addr - dest)) := by
  obtain ⟨low, _⟩ := inside
  rw [Within, UInt64.toNat_add, UInt64.toNat_sub_of_le _ _ (le_iff_toNat_le.mpr low)]
  omega

theorem copy_apply (room : dest.toNat + count < 2 ^ 64) (roomSrc : src.toNat + count < 2 ^ 64)
    (apart : ∀ addr, Within dest count addr → ¬Within src count addr) (memory : Memory)
    (addr : UInt64) :
    copy count dest src memory addr =
      if Within dest count addr then memory (src + (addr - dest)) else memory addr := by
  induction count generalizing dest src memory with
  | zero => rw [if_neg not_within_zero, copy]
  | succ count ih =>
    have next := toNat_add_one room
    have nextSrc := toNat_add_one roomSrc
    have rest : ∀ addr, Within (dest + 1) count addr → ¬Within (src + 1) count addr :=
      fun addr inside fromSrc => apart addr ((within_succ room).mpr (.inr inside))
        ((within_succ roomSrc).mpr (.inr fromSrc))
    rw [copy, ih (by omega) (by omega) rest]
    simp only [within_succ room]
    by_cases first : addr = dest
    · subst first
      rw [if_neg (not_within_self room), if_pos (.inl rfl), put, if_pos rfl]
      rw [sub_self, add_zero]
    · have moved : src + 1 + (addr - (dest + 1)) = src + (addr - dest) := by grind
      simp only [first, false_or, moved]
      split_ifs with inside
      · -- The byte that was written first is not read again.
        have other : src + (addr - dest) ≠ dest := fun same =>
          apart dest ((within_succ room).mpr (.inl rfl))
            (same ▸ within_source ((within_succ room).mpr (.inr inside)) roomSrc)
        rw [put, if_neg other]
      · rw [put, if_neg first]

/-! ### Lists of bytes -/

/-- Store a list of bytes. -/
def store : List UInt8 → UInt64 → Memory → Memory
  | [], _, memory => memory
  | byte :: rest, base, memory => store rest (base + 1) (put memory base byte)

/-- The memory has a list of bytes at an address. -/
def Spells (memory : Memory) : UInt64 → List UInt8 → Prop
  | _, [] => True
  | base, byte :: rest => memory base = byte ∧ Spells memory (base + 1) rest

section Lists

variable {memory other : Memory} {base : UInt64} {bytes more : List UInt8}

theorem store_outside (room : base.toNat + bytes.length < 2 ^ 64) {addr : UInt64}
    (outside : ¬Within base bytes.length addr) : store bytes base memory addr = memory addr := by
  induction bytes generalizing base memory with
  | nil => rfl
  | cons byte rest ih =>
    rw [List.length_cons] at room outside
    have next := toNat_add_one room
    rw [within_succ room, not_or] at outside
    rw [store, ih (by omega) outside.2, put, if_neg outside.1]

/-- Only the bytes of the range count. -/
theorem Spells.congr (spells : Spells memory base bytes) (room : base.toNat + bytes.length < 2 ^ 64)
    (same : ∀ addr, Within base bytes.length addr → other addr = memory addr) :
    Spells other base bytes := by
  induction bytes generalizing base with
  | nil => trivial
  | cons byte rest ih =>
    rw [List.length_cons] at room same
    have next := toNat_add_one room
    refine ⟨(same base ((within_succ room).mpr (.inl rfl))).trans spells.1, ?_⟩
    exact ih spells.2 (by omega) fun addr inside =>
      same addr ((within_succ room).mpr (.inr inside))

theorem spells_store (room : base.toNat + bytes.length < 2 ^ 64) :
    Spells (store bytes base memory) base bytes := by
  induction bytes generalizing base memory with
  | nil => trivial
  | cons byte rest ih =>
    rw [List.length_cons] at room
    have next := toNat_add_one room
    refine ⟨?_, ih (by omega)⟩
    rw [store, store_outside (by omega) (not_within_self room), put, if_pos rfl]

theorem spells_append : Spells memory base (bytes ++ more) ↔
    Spells memory base bytes ∧ Spells memory (base + UInt64.ofNat bytes.length) more := by
  induction bytes generalizing base with
  | nil =>
    rw [List.length_nil, show ofNat 0 = 0 from rfl, UInt64.add_zero]
    exact (and_iff_right trivial).symm
  | cons byte rest ih =>
    rw [List.cons_append, Spells, ih, List.length_cons, Spells, add_one_add_ofNat, and_assoc]

end Lists

end Bytes
