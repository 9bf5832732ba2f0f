/-
This file models the region arrays of `memblock/memblock.c` and the one
function that changes them, `memblock_add_range`. An array is the list of its
first `cnt` entries; the walk keeps the index, the two passes and the moving
`base` of the source, and inserts into the array it walks over.
-/

import Xlinux.Kernel
import Xlinux.Word
import Xlinux.Lib.Run

namespace Xlinux

/-! ### The data -/

/-- `INIT_MEMBLOCK_REGIONS`, the capacity of both arrays. -/
def initMemblockRegions : Nat := 128

/-- `struct memblock_region`. -/
structure MemblockRegion where
  base : UInt64
  size : UInt64
  deriving DecidableEq, Repr

/-- `struct memblock_type`. The field `cnt` is the length of `regions`. -/
structure MemblockType where
  regions : List MemblockRegion
  max : Nat
  totalSize : UInt64
  deriving DecidableEq, Repr

/-- `type->cnt`. -/
def MemblockType.cnt (type : MemblockType) : Nat := type.regions.length

/-- `struct memblock`, with the flag `_memblock_stopped` beside it. -/
structure Memblock where
  currentLimit : UInt64
  memory : MemblockType
  reserved : MemblockType
  stopped : Bool
  deriving DecidableEq, Repr

/-- An array with the empty dummy entry only. -/
def emptyMemblockType : MemblockType where
  regions := [⟨0, 0⟩]
  max := initMemblockRegions
  totalSize := 0

/-- The initial value of the global `memblock`. -/
def initialMemblock : Memblock where
  currentLimit := physAddrMax
  memory := emptyMemblockType
  reserved := emptyMemblockType
  stopped := false

/-! ### The functions -/

/-- `memblock_cap_size`. -/
def memblockCapSize (base size : UInt64) : UInt64 := cmin size (physAddrMax - base)

/-- `memblock_insert_region`. -/
def memblockInsertRegion (type : MemblockType) (idx : Nat) (base size : UInt64) : MemblockType :=
  { type with
    regions := type.regions.insertIdx idx ⟨base, size⟩
    totalSize := type.totalSize + size }

/-- The loop of `memblock_merge_regions` at index `i`. Each turn either moves the index or
shortens the array, so `cnt` turns are enough. -/
def memblockMergeLoop : Nat → Nat → List MemblockRegion → List MemblockRegion
  | 0, _, regions => regions
  | turns + 1, i, regions =>
    match regions[i]?, regions[i + 1]? with
    | some this, some next =>
      if this.base + this.size ≠ next.base then memblockMergeLoop turns (i + 1) regions
      else
        let merged := regions.set i { this with size := this.size + next.size }
        memblockMergeLoop turns i (merged.eraseIdx (i + 1))
    | _, _ => regions

/-- `memblock_merge_regions`. -/
def memblockMergeRegions (type : MemblockType) : MemblockType :=
  { type with regions := memblockMergeLoop type.cnt 0 type.regions }

/-- The locals of one pass of `memblock_add_range` over the array. -/
structure AddPass where
  type : MemblockType
  idx : Nat
  base : UInt64
  nrNew : Nat

/-- The loop `for_each_memblock_type` of `memblock_add_range`, from `end` down to the last
statement of its body. The walk visits every old entry once, so `cnt` turns are enough. -/
def addPassLoop (insert : Bool) (limit : UInt64) : Nat → AddPass → AddPass
  | 0, pass => pass
  | turns + 1, pass =>
    match pass.type.regions[pass.idx]? with
    | none => pass
    | some rgn =>
      let rbase := rgn.base
      let rend := rbase + rgn.size
      if rbase ≥ limit then pass
      else if rend ≤ pass.base then
        addPassLoop insert limit turns { pass with idx := pass.idx + 1 }
      else
        let pass :=
          if rbase > pass.base then
            if insert then
              { pass with
                nrNew := pass.nrNew + 1
                type := memblockInsertRegion pass.type pass.idx pass.base (rbase - pass.base)
                idx := pass.idx + 1 }
            else { pass with nrNew := pass.nrNew + 1 }
          else pass
        addPassLoop insert limit turns { pass with base := cmin rend limit, idx := pass.idx + 1 }

/-- The statement of `memblock_add_range` that inserts the remaining portion. -/
def addRemaining (insert : Bool) (limit : UInt64) (pass : AddPass) : AddPass :=
  if pass.base < limit then
    if insert then
      { pass with
        nrNew := pass.nrNew + 1
        type := memblockInsertRegion pass.type pass.idx pass.base (limit - pass.base) }
    else { pass with nrNew := pass.nrNew + 1 }
  else pass

/-- One execution of the code after `repeat:`. -/
def addPass (insert : Bool) (type : MemblockType) (base limit : UInt64) : AddPass :=
  addRemaining insert limit (addPassLoop insert limit type.cnt ⟨type, 0, base, 0⟩)

/-- `memblock_add_range`. It returns `0` whenever it returns, so only the array is kept. -/
def memblockAddRange (type : MemblockType) (base size : UInt64) : Kernel MemblockType :=
  let size := memblockCapSize base size
  let limit := base + size
  if size = 0 then .ok type
  else if type.regions.head?.map MemblockRegion.size = some 0 then
    .ok { type with regions := type.regions.set 0 ⟨base, size⟩, totalSize := size }
  else
    let nrNew := (addPass false type base limit).nrNew
    if nrNew = 0 then .ok type
    else if type.cnt + nrNew > type.max then .error (.panic "overflow\n")
    else .ok (memblockMergeRegions (addPass true type base limit).type)

/-- `memblock_add`. -/
def memblockAdd (memblock : Memblock) (base size : UInt64) : Kernel Memblock := do
  let memory ← memblockAddRange memblock.memory base size
  return { memblock with memory }

/-- `memblock_reserve`. -/
def memblockReserve (memblock : Memblock) (base size : UInt64) : Kernel Memblock := do
  let reserved ← memblockAddRange memblock.reserved base size
  return { memblock with reserved }

end Xlinux
