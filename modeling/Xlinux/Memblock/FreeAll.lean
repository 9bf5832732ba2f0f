/-
This file models `memblock_free_all`, which hands the free memory over to the
page allocator, and proves what it hands over. Each free range is cut down to
whole pages and then into blocks: a block starts at the next page, is as large
as the alignment of that page allows, and is halved until it fits. The pages of
the blocks are therefore the pages of the range in order.

Rounding the start of a range up to a page wraps for a range that starts within
the last page of the address space. Such a range is cut down to the pages from
`0` on, so the hand-over is exact if and only if there is no such range or no
page below `max_low_pfn`.
-/

import Xlinux.Memblock.FreeRanges

namespace Xlinux

open Spans Iterate List UInt64 Nat

variable {start limit : UInt64}

/-! ### The functions -/

/-- `MAX_ORDER`. -/
def maxOrder : Nat := 11

/-- The two function pointers that the page allocator sets, `NULL` when it has not, over the
state they change. A page is given by its frame number. -/
structure BootHooks (State : Type) where
  reserveBootmemRegionFn : Option (State → MemRange → Kernel State)
  freePagesCoreFn : Option (State → UInt64 → Nat → Kernel State)

section Functions

variable {State : Type} (hooks : BootHooks State)

/-- `memblock_free_pages`. -/
def memblockFreePages (state : State) (pfn : UInt64) (order : Nat) : Kernel State :=
  match hooks.freePagesCoreFn with
  | none => .error .bug
  | some freePagesCore => freePagesCore state pfn order

/-- The loop `while (start + (1UL << order) > end) order--`. It is entered with `start < end`,
so it stops at the order `0` at the latest. -/
def shrinkOrder (start limit : UInt64) : Nat → Nat
  | 0 => 0
  | order + 1 =>
    if start + oneShl (order + 1) > limit then shrinkOrder start limit order else order + 1

/-- The order of the block that starts at `start`. -/
def blockOrder (start limit : UInt64) : Nat :=
  shrinkOrder start limit (min (maxOrder - 1) (ffs start))

/-- The loop of `__free_pages_memory`. -/
def freePagesLoop (limit : UInt64) : Nat → UInt64 → State → Kernel State
  | 0, _, _ => .error .endless
  | turns + 1, start, state =>
    if start < limit then do
      let order := blockOrder start limit
      let state ← memblockFreePages hooks state start order
      freePagesLoop limit turns (start + oneShl order) state
    else return state

/-- `__free_pages_memory`. Every turn moves `start` up by a page at least. -/
def freePagesMemory (start limit : UInt64) (state : State) : Kernel State :=
  freePagesLoop hooks limit ((limit - start).toNat + 1) start state

/-- `__free_memory_core`: the number of pages and the new state. -/
def freeMemoryCore (maxLowPfn : UInt64) (range : MemRange) (state : State) :
    Kernel (UInt64 × State) := do
  let startPfn := pfnUp range.start
  let endPfn := cmin (pfnDown range.stop) maxLowPfn
  if startPfn ≥ endPfn then return (0, state)
  let state ← freePagesMemory hooks startPfn endPfn state
  return (endPfn - startPfn, state)

/-- `__next_reserved_mem_region`. -/
def nextReservedMemRegion (reserved : MemblockType) (cursor : RangeCursor) :
    Kernel RangeCursor :=
  if cursor.idx.toNat < reserved.cnt then do
    let r ← reserved.region cursor.idx.toNat
    return ⟨cursor.idx + 1, r.base, r.base + r.size - 1⟩
  else return ⟨ullongMax, cursor.range⟩

/-- The control part of `for_each_reserved_mem_region`. -/
def reservedMemRegions (reserved : MemblockType) : Iteration Fault RangeCursor MemRange where
  next := nextReservedMemRegion reserved
  stopped := fun cursor => cursor.idx = ullongMax
  value := RangeCursor.range

/-- The body of the loop over the reserved regions. -/
def reserveRegionBody (reserveBootmemRegion : State → MemRange → Kernel State) (state : State)
    (range : MemRange) : Kernel (Empty ⊕ State) := do
  let state ← reserveBootmemRegion state range
  return .inr state

/-- The body of the loop over the free ranges, with the count and the state. -/
def freeRangeBody (maxLowPfn : UInt64) (counted : UInt64 × State) (range : MemRange) :
    Kernel (Empty ⊕ UInt64 × State) := do
  let freed ← freeMemoryCore hooks maxLowPfn range counted.2
  return .inr (counted.1 + freed.1, freed.2)

/-- What a loop that does not return early leaves. -/
def loopEnd {Local : Type} : Empty ⊕ Local → Local
  | .inr last => last

/-- `free_low_memory_core_early`. -/
def freeLowMemoryCoreEarly (memblock : Memblock) (maxLowPfn : UInt64) (state : State) :
    Kernel (UInt64 × State) :=
  match hooks.reserveBootmemRegionFn with
  | none => .error .bug
  | some reserveBootmemRegion => do
    let reserved ← forEach (reservedMemRegions memblock.reserved) .endless
      (reserveRegionBody reserveBootmemRegion) (memblock.reserved.cnt + 1) state ⟨0, 0, 0⟩
    let freed ← forEachFreeMemRange memblock (freeRangeBody hooks maxLowPfn)
      (0, loopEnd reserved) ⟨0, 0⟩
    return loopEnd freed

/-- `memblock_free_all`. -/
def memblockFreeAll (memblock : Memblock) (maxLowPfn : UInt64) (state : State) :
    Kernel (UInt64 × Memblock × State) := do
  if memblock.stopped then throw (.panic "memblock has been stopped!")
  let memblock := { memblock with stopped := true }
  let (pages, state) ← freeLowMemoryCoreEarly hooks memblock maxLowPfn state
  return (pages, memblock, state)

end Functions

/-! ### The blocks of one range -/

/-- A block of `2 ^ order` pages. -/
structure PageBlock where
  pfn : UInt64
  order : Nat
  deriving DecidableEq, Repr

/-- The frame numbers of a block. -/
def PageBlock.pages (block : PageBlock) : List Nat :=
  List.range' block.pfn.toNat (2 ^ block.order)

/-- The blocks that the loop of `__free_pages_memory` hands over. -/
def blocksFrom (limit : UInt64) : Nat → UInt64 → List PageBlock
  | 0, _ => []
  | turns + 1, start =>
    if start < limit then
      ⟨start, blockOrder start limit⟩ ::
        blocksFrom limit turns (start + oneShl (blockOrder start limit))
    else []

theorem shrinkOrder_le (start limit : UInt64) (order : Nat) :
    shrinkOrder start limit order ≤ order := by
  induction order with
  | zero => rfl
  | succ order ih =>
    rw [shrinkOrder]
    split
    · exact ih.trans (le_succ order)
    · exact le_rfl

/-- The loop ends with a block that fits. -/
theorem add_shrinkOrder_le (less : start.toNat < limit.toNat)
    (bound : limit.toNat ≤ 2 ^ 52) {order : Nat} (small : order < maxOrder) :
    start.toNat + 2 ^ shrinkOrder start limit order ≤ limit.toNat := by
  induction order with
  | zero => exact less
  | succ order ih =>
    have power : 2 ^ (order + 1) ≤ 2 ^ 10 :=
      Nat.pow_le_pow_right (by decide) (le_of_lt_succ small)
    have shifted := toNat_oneShl (small.trans (by decide : maxOrder < 64))
    have sum : (start + oneShl (order + 1)).toNat = start.toNat + 2 ^ (order + 1) := by
      rw [toNat_add_of_lt (by omega), shifted]
    rw [shrinkOrder]
    split
    · exact ih (lt_of_succ_lt small)
    · rename_i fits
      rw [gt_iff_lt, lt_iff_toNat_lt, sum, not_lt] at fits
      exact fits

theorem blockOrder_lt (start limit : UInt64) : blockOrder start limit < maxOrder :=
  lt_succ_of_le ((shrinkOrder_le _ _ _).trans (min_le_left _ _))

theorem add_blockOrder_le (less : start.toNat < limit.toNat)
    (bound : limit.toNat ≤ 2 ^ 52) : start.toNat + 2 ^ blockOrder start limit ≤ limit.toNat :=
  add_shrinkOrder_le less bound (lt_succ_of_le (min_le_left _ _))

/-- The next block starts where this one ends. -/
theorem toNat_add_blockOrder (less : start.toNat < limit.toNat) (bound : limit.toNat ≤ 2 ^ 52) :
    (start + oneShl (blockOrder start limit)).toNat = start.toNat + 2 ^ blockOrder start limit := by
  have fits := add_blockOrder_le less bound
  have shifted := toNat_oneShl ((blockOrder_lt start limit).trans (by decide : maxOrder < 64))
  rw [toNat_add_of_lt (by omega), shifted]

/-- The blocks have the pages from `start` up to `limit`, each once and in order. -/
theorem flatMap_pages_blocksFrom (bound : limit.toNat ≤ 2 ^ 52) {turns : Nat}
    (enough : limit.toNat - start.toNat < turns) :
    (blocksFrom limit turns start).flatMap PageBlock.pages =
      List.range' start.toNat (limit.toNat - start.toNat) := by
  induction turns generalizing start with
  | zero => omega
  | succ turns ih =>
    rw [blocksFrom]
    simp only [lt_iff_toNat_lt]
    split_ifs with less
    · have fits := add_blockOrder_le less bound
      have next := toNat_add_blockOrder less bound
      have positive := Nat.two_pow_pos (blockOrder start limit)
      rw [flatMap_cons, ih (by omega), next, PageBlock.pages, range'_append_1]
      congr 1
      show 2 ^ blockOrder start limit + _ = _
      omega
    · rw [Nat.sub_eq_zero_of_le (not_lt.mp less)]
      rfl

theorem mem_blocksFrom {turns : Nat} {block : PageBlock}
    (member : block ∈ blocksFrom limit turns start) :
    block.order < maxOrder ∧ 2 ^ block.order ∣ block.pfn.toNat := by
  induction turns generalizing start with
  | zero => cases member
  | succ turns ih =>
    rw [blocksFrom] at member
    split at member
    · rcases mem_cons.mp member with rfl | later
      · exact ⟨blockOrder_lt start limit, (pow_dvd_pow 2
          ((shrinkOrder_le _ _ _).trans (min_le_right _ _))).trans (two_pow_ffs_dvd start)⟩
      · exact ih later
    · cases member

/-! ### The calls as a recursion over the blocks -/

section Calls

variable {State : Type} (hooks : BootHooks State)

/-- Hand over a list of blocks, in order. -/
def freeBlocks (state : State) (blocks : List PageBlock) : Kernel State :=
  blocks.foldlM (fun state block => memblockFreePages hooks state block.pfn block.order) state

theorem freePagesLoop_eq {limit : UInt64} (bound : limit.toNat ≤ 2 ^ 52) {turns : Nat}
    {start : UInt64} (enough : limit.toNat - start.toNat < turns) (state : State) :
    freePagesLoop hooks limit turns start state =
      freeBlocks hooks state (blocksFrom limit turns start) := by
  induction turns generalizing start state with
  | zero => omega
  | succ turns ih =>
    rw [freePagesLoop, blocksFrom]
    split_ifs with less
    · have less' := lt_iff_toNat_lt.mp less
      have next := toNat_add_blockOrder less' bound
      have positive := Nat.two_pow_pos (blockOrder start limit)
      rw [freeBlocks]
      exact bind_congr fun state => ih (by omega) state
    · rfl

/-- The first page of a range, as `__free_memory_core` rounds it. -/
def startPfn (range : MemRange) : UInt64 := pfnUp range.start

/-- The end of the pages of a range. -/
def endPfn (maxLowPfn : UInt64) (range : MemRange) : UInt64 :=
  cmin (pfnDown range.stop) maxLowPfn

/-- The blocks that are handed over for one range. -/
def rangeBlocks (maxLowPfn : UInt64) (range : MemRange) : List PageBlock :=
  blocksFrom (endPfn maxLowPfn range) ((endPfn maxLowPfn range - startPfn range).toNat + 1)
    (startPfn range)

/-- The pages that are handed over for one range. -/
def rangePages (maxLowPfn : UInt64) (range : MemRange) : List Nat :=
  List.range' (startPfn range).toNat ((endPfn maxLowPfn range).toNat - (startPfn range).toNat)

theorem endPfn_le (maxLowPfn : UInt64) (range : MemRange) :
    (endPfn maxLowPfn range).toNat ≤ 2 ^ 52 := by
  have bound := toNat_lt range.stop
  rw [endPfn, toNat_cmin, toNat_pfnDown]
  omega

omit hooks in
theorem turns_enough (first last : UInt64) :
    last.toNat - first.toNat < (last - first).toNat + 1 := by
  by_cases less : first.toNat ≤ last.toNat
  · rw [toNat_sub_of_toNat_le less]
    omega
  · omega

/-- The count that `__free_memory_core` returns. -/
def rangeCount (maxLowPfn : UInt64) (range : MemRange) : UInt64 :=
  if startPfn range ≥ endPfn maxLowPfn range then 0
  else endPfn maxLowPfn range - startPfn range

theorem toNat_rangeCount (maxLowPfn : UInt64) (range : MemRange) :
    (rangeCount maxLowPfn range).toNat = (rangePages maxLowPfn range).length := by
  rw [rangeCount, rangePages, length_range']
  simp only [le_iff_toNat_le]
  split
  · rename_i empty
    rw [Nat.sub_eq_zero_of_le empty]
    rfl
  · rename_i less
    exact toNat_sub_of_toNat_le (not_le.mp less).le

/-- `__free_memory_core` hands over the blocks of its range. -/
theorem freeMemoryCore_eq (maxLowPfn : UInt64) (range : MemRange) (state : State) :
    freeMemoryCore hooks maxLowPfn range state =
      (rangeCount maxLowPfn range, ·) <$> freeBlocks hooks state (rangeBlocks maxLowPfn range) := by
  have loop := freePagesLoop_eq hooks (endPfn_le maxLowPfn range)
    (turns_enough (startPfn range) (endPfn maxLowPfn range)) state
  unfold freeMemoryCore rangeCount
  by_cases empty : startPfn range ≥ endPfn maxLowPfn range
  · have none : rangeBlocks maxLowPfn range = [] := by
      rw [rangeBlocks, blocksFrom, if_neg]
      rw [lt_iff_toNat_lt, not_lt]
      exact le_iff_toNat_le.mp empty
    rw [if_pos empty, none]
    exact if_pos empty
  · rw [if_neg empty, rangeBlocks, ← loop]
    exact (if_neg empty).trans (map_eq_pure_bind _ _).symm

/-- The loop over ranges hands over the blocks of all of them and adds up the counts. -/
theorem each_freeRangeBody (maxLowPfn : UInt64) (ranges : List MemRange) (count : UInt64)
    (state : State) :
    each (freeRangeBody hooks maxLowPfn) (count, state) ranges =
      (fun state => .inr (ranges.foldl (fun sum range => sum + rangeCount maxLowPfn range) count,
        state)) <$> freeBlocks hooks state (ranges.flatMap (rangeBlocks maxLowPfn)) := by
  induction ranges generalizing count state with
  | nil => rfl
  | cons range rest ih =>
    rw [each, freeRangeBody, freeMemoryCore_eq, flatMap_cons, freeBlocks, freeBlocks, foldlM_append]
    cases foldlM
        (fun state (block : PageBlock) => memblockFreePages hooks state block.pfn block.order)
        state (rangeBlocks maxLowPfn range) with
    | error fault => rfl
    | ok after => exact ih (count + rangeCount maxLowPfn range) after

theorem each_reserveRegionBody (reserveBootmemRegion : State → MemRange → Kernel State)
    (ranges : List MemRange) (state : State) :
    each (reserveRegionBody reserveBootmemRegion) state ranges =
      .inr <$> ranges.foldlM reserveBootmemRegion state := by
  induction ranges generalizing state with
  | nil => rfl
  | cons range rest ih =>
    rw [each, reserveRegionBody, foldlM_cons]
    cases reserveBootmemRegion state range with
    | error fault => rfl
    | ok after => exact ih after

end Calls

/-! ### The loop over the reserved regions -/

/-- What `__next_reserved_mem_region` hands out for a region. -/
def reservedRange (region : MemblockRegion) : MemRange :=
  ⟨region.base, region.base + region.size - 1⟩

/-- The cursor of the loop stands before the regions from its index on. -/
def ReservedAt (reserved : MemblockType) (cursor : RangeCursor) (ranges : List MemRange) : Prop :=
  cursor.idx.toNat ≤ reserved.cnt ∧
    ranges = (reserved.regions.drop cursor.idx.toNat).map reservedRange

theorem nextReservedMemRegion_simulates {reserved : MemblockType}
    (small : reserved.cnt < 2 ^ 31 - 1) :
    Simulates (reservedMemRegions reserved) id (ReservedAt reserved) := by
  rintro cursor _ ⟨bound, rfl⟩
  show ∃ after, nextReservedMemRegion reserved cursor = .ok after ∧ _
  rw [nextReservedMemRegion]
  split_ifs with inside
  · have found : reserved.regions[cursor.idx.toNat]? = some reserved.regions[cursor.idx.toNat] :=
      getElem?_eq_getElem inside
    have next : (cursor.idx + 1).toNat = cursor.idx.toNat + 1 := by
      rw [toNat_add_of_lt (by rw [UInt64.toNat_one]; omega)]
      rfl
    have running : cursor.idx + 1 ≠ ullongMax := by
      intro same
      rw [same, show ullongMax.toNat = 2 ^ 64 - 1 from rfl] at next
      omega
    rw [region_of_getElem? found]
    refine ⟨⟨cursor.idx + 1, reservedRange reserved.regions[cursor.idx.toNat]⟩, rfl,
      Or.inr ⟨decide_eq_false running, _, ?_, ?_, rfl⟩⟩
    · rw [drop_eq_getElem_cons inside, next]
      rfl
    · rw [next]
      exact inside
  · rw [drop_of_length_le (not_lt.mp inside)]
    exact ⟨⟨ullongMax, cursor.range⟩, rfl, Or.inl ⟨rfl, rfl⟩⟩

/-! ### The hand-over -/

/-- All blocks that are handed over, in order. -/
def Memblock.handedBlocks (memblock : Memblock) (maxLowPfn : UInt64) : List PageBlock :=
  memblock.freeRanges.flatMap (rangeBlocks maxLowPfn)

/-- The count that `memblock_free_all` returns. -/
def Memblock.handedCount (memblock : Memblock) (maxLowPfn : UInt64) : UInt64 :=
  memblock.freeRanges.foldl (fun sum range => sum + rangeCount maxLowPfn range) 0

/-- With both hooks set, `memblock_free_all` first reserves every reserved region and then
hands over the blocks. -/
theorem memblockFreeAll_eq {State : Type} {memblock : Memblock} (arranged : memblock.Arranged)
    (running : memblock.stopped = false) (maxLowPfn : UInt64)
    (reserveBootmemRegion : State → MemRange → Kernel State)
    (freePagesCore : State → UInt64 → Nat → Kernel State) (state : State) :
    memblockFreeAll ⟨some reserveBootmemRegion, some freePagesCore⟩ memblock maxLowPfn state = do
      let state ← (memblock.reserved.regions.map reservedRange).foldlM reserveBootmemRegion state
      let state ← (memblock.handedBlocks maxLowPfn).foldlM
        (fun state block => freePagesCore state block.pfn block.order) state
      return (memblock.handedCount maxLowPfn, { memblock with stopped := true }, state) := by
  have arranged' : Memblock.Arranged { memblock with stopped := true } :=
    ⟨arranged.memory, arranged.reserved⟩
  have enough : (memblock.reserved.regions.map reservedRange).length < memblock.reserved.cnt + 1 :=
    by rw [length_map]; exact lt_succ_self _
  have yields : Yields (reservedMemRegions memblock.reserved) ⟨0, ⟨0, 0⟩⟩
      (memblock.reserved.regions.map reservedRange) :=
    (nextReservedMemRegion_simulates arranged.reserved.small).yields_self ⟨zero_le _, rfl⟩
  have reserves := forEach_of_yields yields Fault.endless (reserveRegionBody reserveBootmemRegion)
    enough state
  rw [each_reserveRegionBody] at reserves
  simp only [memblockFreeAll, running, freeLowMemoryCoreEarly, reserves, map_eq_pure_bind,
    bind_assoc]
  refine bind_congr fun after => ?_
  have frees := arranged'.forEachFreeMemRange_eq
    (freeRangeBody ⟨some reserveBootmemRegion, some freePagesCore⟩ maxLowPfn) (0, after) ⟨0, 0⟩
  rw [each_freeRangeBody, map_eq_pure_bind] at frees
  simp only [loopEnd, pure_bind, frees, bind_assoc]
  rfl

/-! ### What is handed over -/

/-- The bytes of a page. -/
def pageBytes (pfn : Nat) : Set Nat :=
  Set.Ico (pfn * pageSize.toNat) ((pfn + 1) * pageSize.toNat)

/-- The bytes of a block. -/
def PageBlock.bytes (block : PageBlock) : Set Nat :=
  Set.Ico (block.pfn.toNat * pageSize.toNat) ((block.pfn.toNat + 2 ^ block.order) * pageSize.toNat)

/-- The hand-over is exact: the pages of the blocks are the pages below `max_low_pfn` that lie
wholly inside one free range, each once; the blocks are aligned, of order at most
`MAX_ORDER - 1` and without a reserved byte; and the count is the number of pages. -/
structure HandedOver (memblock : Memblock) (maxLowPfn count : UInt64)
    (blocks : List PageBlock) : Prop where
  pages : ∀ pfn, pfn ∈ blocks.flatMap PageBlock.pages ↔
    pfn < maxLowPfn.toNat ∧ ∃ span, IsMaximal memblock.free span ∧ pageBytes pfn ⊆ span.points
  once : (blocks.flatMap PageBlock.pages).Nodup
  orders : ∀ block ∈ blocks, block.order ≤ maxOrder - 1
  aligned : ∀ block ∈ blocks, 2 ^ block.order ∣ block.pfn.toNat
  notReserved : ∀ block ∈ blocks, Disjoint block.bytes memblock.reserved.covered
  counted : count.toNat = (blocks.map fun block => 2 ^ block.order).sum

/-- No free range starts within the last page of the address space, or there is no page to
hand over at all. -/
def Roundable (memblock : Memblock) (maxLowPfn : UInt64) : Prop :=
  maxLowPfn = 0 ∨ ∀ span, IsMaximal memblock.free span → span.lo ≤ 2 ^ 64 - pageSize.toNat

theorem pageBytes_subset_iff (pfn : Nat) (span : Span Nat) :
    pageBytes pfn ⊆ span.points ↔ span.lo ≤ pfn * 4096 ∧ (pfn + 1) * 4096 ≤ span.hi := by
  rw [pageBytes, toNat_pageSize]
  exact Set.Ico_subset_Ico_iff (by omega)

theorem mem_rangePages_iff (maxLowPfn : UInt64) (range : MemRange) (pfn : Nat) :
    pfn ∈ rangePages maxLowPfn range ↔
      (startPfn range).toNat ≤ pfn ∧ pfn < (endPfn maxLowPfn range).toNat := by
  rw [rangePages, mem_range'_1]
  omega

theorem toNat_endPfn (maxLowPfn : UInt64) (range : MemRange) :
    (endPfn maxLowPfn range).toNat = min (range.stop.toNat / 4096) maxLowPfn.toNat := by
  rw [endPfn, toNat_cmin, toNat_pfnDown]

/-- A range whose start can be rounded up hands over exactly the pages inside it. -/
theorem mem_rangePages {maxLowPfn : UInt64} {range : MemRange}
    (roundable : maxLowPfn = 0 ∨ range.start.toNat ≤ 2 ^ 64 - 4096) (pfn : Nat) :
    pfn ∈ rangePages maxLowPfn range ↔
      pfn < maxLowPfn.toNat ∧ pageBytes pfn ⊆ range.span.points := by
  rw [mem_rangePages_iff, pageBytes_subset_iff, toNat_endPfn, startPfn, toNat_pfnUp]
  show _ ↔ _ ∧ range.start.toNat ≤ _ ∧ _ ≤ range.stop.toNat
  rcases roundable with zero | low
  · rw [zero, UInt64.toNat_zero]
    omega
  · rw [if_pos low]
    omega

theorem Memblock.flatMap_pages_handedBlocks (memblock : Memblock) (maxLowPfn : UInt64) :
    (memblock.handedBlocks maxLowPfn).flatMap PageBlock.pages =
      memblock.freeRanges.flatMap (rangePages maxLowPfn) := by
  rw [Memblock.handedBlocks, flatMap_assoc]
  exact congrArg (memblock.freeRanges.flatMap ·)
    (funext fun range => flatMap_pages_blocksFrom (endPfn_le maxLowPfn range) (turns_enough _ _))

theorem toNat_foldl_rangeCount (maxLowPfn : UInt64) (ranges : List MemRange) (count : UInt64) :
    (ranges.foldl (fun sum range => sum + rangeCount maxLowPfn range) count).toNat =
      (count.toNat + (ranges.flatMap (rangePages maxLowPfn)).length) % 2 ^ 64 := by
  induction ranges generalizing count with
  | nil => exact (mod_eq_of_lt (toNat_lt count)).symm
  | cons range rest ih =>
    rw [foldl_cons, ih, UInt64.toNat_add, toNat_rangeCount, flatMap_cons, length_append]
    omega

theorem sum_orders_eq_length (blocks : List PageBlock) :
    (blocks.map fun block => 2 ^ block.order).sum = (blocks.flatMap PageBlock.pages).length := by
  rw [length_flatMap]
  simp only [PageBlock.pages, length_range']

namespace Memblock.Arranged

variable {memblock : Memblock} (arranged : memblock.Arranged) {maxLowPfn : UInt64}

include arranged

theorem isMaximal_iff (span : Span Nat) :
    IsMaximal memblock.free span ↔ ∃ range ∈ memblock.freeRanges, range.span = span := by
  rw [← arranged.cover_freeSpans, ← arranged.normal_freeSpans.mem_iff_isMaximal,
    ← arranged.map_span_freeRanges, mem_map]

section

variable (roundable : Roundable memblock maxLowPfn)

include roundable

theorem roundable_range {range : MemRange} (member : range ∈ memblock.freeRanges) :
    maxLowPfn = 0 ∨ range.start.toNat ≤ 2 ^ 64 - 4096 :=
  roundable.imp_right fun low =>
    low range.span ((arranged.isMaximal_iff _).mpr ⟨range, member, rfl⟩)

theorem mem_handedPages (pfn : Nat) :
    pfn ∈ memblock.freeRanges.flatMap (rangePages maxLowPfn) ↔ pfn < maxLowPfn.toNat ∧
        ∃ span, IsMaximal memblock.free span ∧ pageBytes pfn ⊆ span.points := by
  rw [mem_flatMap]
  constructor
  · rintro ⟨range, member, page⟩
    obtain ⟨low, inside⟩ := (mem_rangePages (arranged.roundable_range roundable member) pfn).mp page
    exact ⟨low, range.span, (arranged.isMaximal_iff _).mpr ⟨range, member, rfl⟩, inside⟩
  · rintro ⟨low, span, maximal, inside⟩
    obtain ⟨range, member, rfl⟩ := (arranged.isMaximal_iff span).mp maximal
    exact ⟨range, member,
      (mem_rangePages (arranged.roundable_range roundable member) pfn).mpr ⟨low, inside⟩⟩

theorem nodup_handedPages : (memblock.freeRanges.flatMap (rangePages maxLowPfn)).Nodup := by
  have separated := arranged.normal_freeSpans.separated
  rw [← arranged.map_span_freeRanges, Separated, pairwise_map] at separated
  refine nodup_flatMap.mpr ⟨fun _ _ => nodup_range', ?_⟩
  refine separated.imp_of_mem fun {first second} firstMember secondMember before => ?_
  intro pfn inFirst inSecond
  rw [mem_rangePages (arranged.roundable_range roundable firstMember),
    pageBytes_subset_iff] at inFirst
  rw [mem_rangePages (arranged.roundable_range roundable secondMember),
    pageBytes_subset_iff] at inSecond
  omega

/-- Where every start can be rounded up, the hand-over is exact. -/
theorem handedOver :
    HandedOver memblock maxLowPfn (memblock.handedCount maxLowPfn)
      (memblock.handedBlocks maxLowPfn) := by
  have once := arranged.nodup_handedPages roundable
  have shape : ∀ block ∈ memblock.handedBlocks maxLowPfn,
      block.order < maxOrder ∧ 2 ^ block.order ∣ block.pfn.toNat := by
    intro block member
    obtain ⟨range, _, inRange⟩ := mem_flatMap.mp member
    exact mem_blocksFrom inRange
  refine ⟨fun pfn => ?_, ?_, fun block member => le_of_lt_succ (shape block member).1,
    fun block member => (shape block member).2, fun block member => ?_, ?_⟩
  · rw [memblock.flatMap_pages_handedBlocks]
    exact arranged.mem_handedPages roundable pfn
  · rw [memblock.flatMap_pages_handedBlocks]
    exact once
  · refine Set.disjoint_left.mpr fun address inside => ?_
    rw [PageBlock.bytes, toNat_pageSize] at inside
    have page : address / 4096 ∈ (memblock.handedBlocks maxLowPfn).flatMap PageBlock.pages := by
      refine mem_flatMap.mpr ⟨block, member, mem_range'_1.mpr ⟨?_, ?_⟩⟩
      · have := inside.1
        omega
      · have := inside.2
        omega
    rw [memblock.flatMap_pages_handedBlocks, arranged.mem_handedPages roundable] at page
    obtain ⟨_, _, maximal, covered⟩ := page
    have own : address ∈ pageBytes (address / 4096) := by
      rw [pageBytes, toNat_pageSize]
      exact ⟨by omega, by omega⟩
    exact (maximal.subset (covered own)).2
  · rw [handedCount, toNat_foldl_rangeCount, sum_orders_eq_length,
      memblock.flatMap_pages_handedBlocks, UInt64.toNat_zero, zero_add]
    have subset : memblock.freeRanges.flatMap (rangePages maxLowPfn) ⊆ range (2 ^ 52) := by
      intro pfn member
      obtain ⟨range, _, page⟩ := mem_flatMap.mp member
      have low := ((mem_rangePages_iff _ _ _).mp page).2.trans_le (endPfn_le maxLowPfn range)
      exact mem_range.mpr low
    have bound := (subperm_of_subset once subset).length_le
    rw [length_range] at bound
    exact mod_eq_of_lt (by omega)

end

/-- A range that starts within the last page hands over the page `0`, which either does not
belong to a free range or is handed over a second time by the range it belongs to. -/
theorem not_handedOver (wraps : ¬ Roundable memblock maxLowPfn) (count : UInt64) :
    ¬ HandedOver memblock maxLowPfn count (memblock.handedBlocks maxLowPfn) := by
  intro exactly
  obtain ⟨some, high⟩ := not_or.mp wraps
  simp only [not_forall, not_le] at high
  obtain ⟨span, maximal, high⟩ := high
  obtain ⟨range, member, rfl⟩ := (arranged.isMaximal_iff span).mp maximal
  have positive : 0 < maxLowPfn.toNat := pos_of_ne_zero fun zero => some (UInt64.toNat_inj.mp zero)
  have filled : range.start.toNat < range.stop.toNat := maximal.filled
  have above : 2 ^ 64 - 4096 < range.start.toNat := high
  have first : 0 ∈ rangePages maxLowPfn range := by
    rw [mem_rangePages_iff, toNat_endPfn, startPfn, toNat_pfnUp, if_neg (not_le.mpr above)]
    omega
  have page : 0 ∈ (memblock.handedBlocks maxLowPfn).flatMap PageBlock.pages := by
    rw [memblock.flatMap_pages_handedBlocks]
    exact mem_flatMap.mpr ⟨range, member, first⟩
  obtain ⟨low, other, otherMaximal, inside⟩ := (exactly.pages 0).mp page
  obtain ⟨owner, ownerMember, rfl⟩ := (arranged.isMaximal_iff other).mp otherMaximal
  have bottom := (pageBytes_subset_iff 0 owner.span).mp inside
  have start : owner.start.toNat ≤ 0 * 4096 := bottom.1
  have second : 0 ∈ rangePages maxLowPfn owner :=
    (mem_rangePages (Or.inr (by omega)) 0).mpr ⟨low, inside⟩
  have once := exactly.once
  rw [memblock.flatMap_pages_handedBlocks] at once
  have apart := (nodup_flatMap.mp once).2
  have different : range ≠ owner := by
    intro same
    rw [same] at above
    omega
  have : Std.Symm (Function.onFun List.Disjoint (rangePages maxLowPfn)) :=
    ⟨fun _ _ disjoint _ inSecond inFirst => disjoint inFirst inSecond⟩
  exact apart.forall member ownerMember different first second

end Memblock.Arranged

/-- The hooks that record the blocks that are handed over. -/
def recordBlocks : BootHooks (List PageBlock) where
  reserveBootmemRegionFn := some fun blocks _ => .ok blocks
  freePagesCoreFn := some fun blocks pfn order => .ok (blocks ++ [⟨pfn, order⟩])

theorem foldlM_record (blocks handed : List PageBlock) :
    handed.foldlM (m := Kernel) (fun blocks block => .ok (blocks ++ [⟨block.pfn, block.order⟩]))
      blocks = .ok (blocks ++ handed) := by
  induction handed generalizing blocks with
  | nil => rw [append_nil]; rfl
  | cons block rest ih =>
    refine (ih _).trans ?_
    rw [append_assoc, singleton_append]

theorem memblockFreeAll_record {memblock : Memblock} (arranged : memblock.Arranged)
    (running : memblock.stopped = false) (maxLowPfn : UInt64) :
    memblockFreeAll recordBlocks memblock maxLowPfn [] =
      .ok (memblock.handedCount maxLowPfn, { memblock with stopped := true },
        memblock.handedBlocks maxLowPfn) := by
  have reserves : ∀ ranges : List MemRange,
      ranges.foldlM (m := Kernel) (fun (blocks : List PageBlock) _ => .ok blocks) [] = .ok [] := by
    intro ranges
    induction ranges with
    | nil => rfl
    | cons range rest ih => exact ih
  rw [recordBlocks, memblockFreeAll_eq arranged running, reserves]
  show (memblock.handedBlocks maxLowPfn).foldlM (m := Kernel) _ [] >>= _ = _
  rw [foldlM_record]
  rfl

/-- `memblock_free_all` returns, and its hand-over is exact if and only if every start of a
free range can be rounded up to a page. -/
theorem memblockFreeAll_handedOver_iff {memblock : Memblock} (arranged : memblock.Arranged)
    (running : memblock.stopped = false) (maxLowPfn : UInt64) :
    ∃ count blocks, memblockFreeAll recordBlocks memblock maxLowPfn [] =
        .ok (count, { memblock with stopped := true }, blocks) ∧
      (HandedOver memblock maxLowPfn count blocks ↔ Roundable memblock maxLowPfn) := by
  refine ⟨_, _, memblockFreeAll_record arranged running maxLowPfn, ?_, arranged.handedOver⟩
  intro exactly
  by_contra wraps
  exact arranged.not_handedOver wraps _ exactly

/-- Three pages below `max_low_pfn`, all of them handed over. -/
theorem memblockFreeAll_handedOver_iff_pages :
    ∃ memblock count blocks, memblock.Arranged ∧ memblock.stopped = false ∧
      memblock.memory.regions = [⟨0x1000, 0x3000⟩] ∧
      memblockFreeAll recordBlocks memblock 4 [] =
        .ok (count, { memblock with stopped := true }, blocks) ∧
      HandedOver memblock 4 count blocks := by
  have ran : Run.run memblockCall initialMemblock [.add 0x1000 0x3000] = .ok _ := rfl
  have arranged := (normalised_of_run ran).arranged
  obtain ⟨count, blocks, code, iff⟩ := memblockFreeAll_handedOver_iff arranged rfl 4
  refine ⟨_, count, blocks, arranged, rfl, rfl, code, iff.mpr (Or.inr ?_)⟩
  intro span maximal
  obtain ⟨_, member, _, upper⟩ := (maximal.subset ⟨le_rfl, maximal.filled⟩).1
  rw [mem_singleton.mp member] at upper
  exact (upper.trans (by decide : _ < 2 ^ 64 - pageSize.toNat)).le

/-- Memory within the last page of the address space makes the page `0` free, which is not
memory at all. -/
theorem memblockFreeAll_lastPage :
    ∃ memblock count blocks, memblock.Arranged ∧ memblock.stopped = false ∧
      memblock.memory.regions = [⟨0xfffffffffffff800, 0x7ff⟩] ∧
      memblockFreeAll recordBlocks memblock 1 [] =
        .ok (count, { memblock with stopped := true }, blocks) ∧
      blocks = [⟨0, 0⟩] ∧ ¬ HandedOver memblock 1 count blocks := by
  have ran : Run.run memblockCall initialMemblock [.add 0xfffffffffffff800 0x7ff] = .ok _ := rfl
  refine ⟨_, _, _, (normalised_of_run ran).arranged, rfl, rfl, rfl, rfl, fun exactly => ?_⟩
  obtain ⟨_, _, maximal, inside⟩ := (exactly.pages 0).mp (by decide)
  obtain ⟨_, member, lower, _⟩ := (maximal.subset (inside ⟨le_rfl, by decide⟩)).1
  rw [mem_singleton.mp member] at lower
  exact absurd lower (by decide)

end Xlinux
