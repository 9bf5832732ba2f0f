/-
This file models the iterators of `memblock/memblock.c`. `__next_mem_range` and
`__next_mem_range_rev` walk the areas that are in `type_a` and not in `type_b`;
they keep two `int` cursors, one into each array, packed into one `u64`. The
blank areas of `type_b` are numbered `0` to `cnt`: area `idx_b` lies before
region `idx_b`.
-/

import Xlinux.Memblock.Regions
import Xlinux.Lib.Iterate

namespace Xlinux

open Iterate

/-- A range of addresses as the iterators hand it out. -/
structure MemRange where
  start : UInt64
  stop : UInt64
  deriving DecidableEq, Repr

/-- The variables of a `for_each_*` loop: the packed index `i` and the two output variables,
which keep their values when an iterator signals the end. -/
structure RangeCursor where
  idx : UInt64
  range : MemRange
  deriving DecidableEq, Repr

/-- `(u32)idx_a | (u64)idx_b << 32`. -/
def packIdx (idxA idxB : Int) : UInt64 :=
  (ofCInt idxA &&& (0xffffffff : UInt64)) ||| (ofCInt idxB <<< (32 : UInt64))

/-- `*idx & 0xffffffff` as an `int`. -/
def unpackIdxA (idx : UInt64) : Int := toCInt (idx &&& 0xffffffff)

/-- `*idx >> 32` as an `int`. -/
def unpackIdxB (idx : UInt64) : Int := toCInt (idx >>> 32)

/-- A read of `type->regions[idx]`. -/
def MemblockType.region (type : MemblockType) (idx : Int) : Kernel MemblockRegion :=
  if idx < 0 then .error .outOfBounds
  else
    match type.regions[idx.toNat]? with
    | some region => .ok region
    | none => .error .outOfBounds

/-- The lower end `r_start` of the blank area before region `idx_b`. -/
def blankStart (typeB : MemblockType) (idxB : Int) : Kernel UInt64 :=
  if idxB ≠ 0 then do
    let before ← typeB.region (idxB - 1)
    return before.base + before.size
  else return 0

/-- Its upper end `r_end`. -/
def blankStop (typeB : MemblockType) (idxB : Int) : Kernel UInt64 :=
  if (ofCInt idxB).toNat < typeB.cnt then do
    let r ← typeB.region idxB
    return r.base
  else return physAddrMax

/-- The blank area before region `idx_b`. -/
def blankArea (typeB : MemblockType) (idxB : Int) : Kernel MemRange := do
  let start ← blankStart typeB idxB
  let stop ← blankStop typeB idxB
  return ⟨start, stop⟩

/-- How the loop over `idx_b` ends: with a range and the cursors to resume from, or without
one and the value `idx_b` has then. -/
inductive Scan where
  | found (range : MemRange) (idxA idxB : Int)
  | passed (idxB : Int)

/-! ### Ascending -/

/-- The loop of `__next_mem_range` over `idx_b`. The cursor moves up to `cnt + 1`, so
`cnt + 1` turns are enough. -/
def scanBlanks (typeB : MemblockType) (m : MemRange) (idxA : Int) : Nat → Int → Kernel Scan
  | 0, idxB => .ok (.passed idxB)
  | turns + 1, idxB =>
    if (ofCInt idxB).toNat < typeB.cnt + 1 then
      match blankArea typeB idxB with
      | .error fault => .error fault
      | .ok r =>
        if r.start ≥ m.stop then .ok (.passed idxB)
        else if m.start < r.stop then
          let range : MemRange := ⟨cmax m.start r.start, cmin m.stop r.stop⟩
          if m.stop ≤ r.stop then .ok (.found range (idxA + 1) idxB)
          else .ok (.found range idxA (idxB + 1))
        else scanBlanks typeB m idxA turns (idxB + 1)
    else .ok (.passed idxB)

/-- The loop of `__next_mem_range` over `idx_a`; `typeB` is `none` when `type_b` is `NULL`. -/
def scanRegions (typeA : MemblockType) (typeB : Option MemblockType) (out : MemRange) :
    Nat → Int → Int → Kernel RangeCursor
  | 0, _, _ => .ok ⟨ullongMax, out⟩
  | turns + 1, idxA, idxB =>
    if (ofCInt idxA).toNat < typeA.cnt then
      match typeA.region idxA with
      | .error fault => .error fault
      | .ok region =>
        let m : MemRange := ⟨region.base, region.base + region.size⟩
        match typeB with
        | none => .ok ⟨packIdx (idxA + 1) idxB, m⟩
        | some reserved =>
          match scanBlanks reserved m idxA (reserved.cnt + 2) idxB with
          | .error fault => .error fault
          | .ok (.found range idxA idxB) => .ok ⟨packIdx idxA idxB, range⟩
          | .ok (.passed idxB) => scanRegions typeA typeB out turns (idxA + 1) idxB
    else .ok ⟨ullongMax, out⟩

/-- `__next_mem_range`. -/
def nextMemRange (typeA : MemblockType) (typeB : Option MemblockType) (cursor : RangeCursor) :
    Kernel RangeCursor :=
  scanRegions typeA typeB cursor.range (typeA.cnt + 1) (unpackIdxA cursor.idx)
    (unpackIdxB cursor.idx)

/-! ### Descending -/

/-- The loop of `__next_mem_range_rev` over `idx_b`. The cursor moves down to `-1`. -/
def scanBlanksRev (typeB : MemblockType) (m : MemRange) (idxA : Int) : Nat → Int → Kernel Scan
  | 0, idxB => .ok (.passed idxB)
  | turns + 1, idxB =>
    if idxB ≥ 0 then
      match blankArea typeB idxB with
      | .error fault => .error fault
      | .ok r =>
        if r.stop ≤ m.start then .ok (.passed idxB)
        else if m.stop > r.start then
          let range : MemRange := ⟨cmax m.start r.start, cmin m.stop r.stop⟩
          if m.start ≥ r.start then .ok (.found range (idxA - 1) idxB)
          else .ok (.found range idxA (idxB - 1))
        else scanBlanksRev typeB m idxA turns (idxB - 1)
    else .ok (.passed idxB)

/-- The loop of `__next_mem_range_rev` over `idx_a`. -/
def scanRegionsRev (typeA : MemblockType) (typeB : Option MemblockType) (out : MemRange) :
    Nat → Int → Int → Kernel RangeCursor
  | 0, _, _ => .ok ⟨ullongMax, out⟩
  | turns + 1, idxA, idxB =>
    if idxA ≥ 0 then
      match typeA.region idxA with
      | .error fault => .error fault
      | .ok region =>
        let m : MemRange := ⟨region.base, region.base + region.size⟩
        match typeB with
        | none => .ok ⟨packIdx (idxA - 1) idxB, m⟩
        | some reserved =>
          match scanBlanksRev reserved m idxA (idxB.toNat + 2) idxB with
          | .error fault => .error fault
          | .ok (.found range idxA idxB) => .ok ⟨packIdx idxA idxB, range⟩
          | .ok (.passed idxB) => scanRegionsRev typeA typeB out turns (idxA - 1) idxB
    else .ok ⟨ullongMax, out⟩

/-- `__next_mem_range_rev`. The index `ULLONG_MAX` starts at the upper end of both arrays. -/
def nextMemRangeRev (typeA : MemblockType) (typeB : Option MemblockType) (cursor : RangeCursor) :
    Kernel RangeCursor :=
  let idxA :=
    if cursor.idx = ullongMax then toCInt (UInt64.ofNat typeA.cnt - 1) else unpackIdxA cursor.idx
  let idxB :=
    if cursor.idx = ullongMax then
      match typeB with
      | some reserved => toCInt (UInt64.ofNat reserved.cnt)
      | none => 0
    else unpackIdxB cursor.idx
  scanRegionsRev typeA typeB cursor.range (idxA.toNat + 2) idxA idxB

/-! ### The loops -/

/-- The control part of `for_each_mem_range`. -/
def memRanges (typeA : MemblockType) (typeB : Option MemblockType) :
    Iteration Fault RangeCursor MemRange where
  next := nextMemRange typeA typeB
  stopped := fun cursor => cursor.idx = ullongMax
  value := RangeCursor.range

/-- The control part of `for_each_mem_range_rev`. -/
def memRangesRev (typeA : MemblockType) (typeB : Option MemblockType) :
    Iteration Fault RangeCursor MemRange where
  next := nextMemRangeRev typeA typeB
  stopped := fun cursor => cursor.idx = ullongMax
  value := RangeCursor.range

section Loop

variable {State Result : Type} (memblock : Memblock)
  (body : State → MemRange → Kernel (Result ⊕ State))

/-- The turns a loop over the free ranges gets: one for each cursor position. -/
def freeRangeTurns : Nat := memblock.memory.cnt + memblock.reserved.cnt + 2

/-- `for_each_free_mem_range(i, &start, &end) body`; the output variables start as `out`. -/
def forEachFreeMemRange (state : State) (out : MemRange) : Kernel (Result ⊕ State) :=
  forEach (memRanges memblock.memory (some memblock.reserved)) .endless body
    (freeRangeTurns memblock) state ⟨0, out⟩

/-- `for_each_free_mem_range_reverse(i, &start, &end) body`. -/
def forEachFreeMemRangeReverse (state : State) (out : MemRange) : Kernel (Result ⊕ State) :=
  forEach (memRangesRev memblock.memory (some memblock.reserved)) .endless body
    (freeRangeTurns memblock) state ⟨ullongMax, out⟩

end Loop

end Xlinux
