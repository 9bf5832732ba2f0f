/-
This file models `init_module` of `buddy/buddy.c` as a whole, from the region
arrays to the booted allocator, and proves where the free blocks lie. The memory
map is allocated zeroed and nothing writes the zone bits of `page->flags`, so
`page_zone` is the first zone for every page. The free blocks lie in the spans
of their zones, and the managed pages are counted right, if and only if all
pages that are handed over lie in the span of the first zone, which ends at
4 GiB.
-/

import Xlinux.Buddy.Confined
import Xlinux.Buddy.ZoneSizes
import Xlinux.Memblock.Alloc

namespace Xlinux

open Blocks Spans List Kernel
open Function

/-! ### The boot -/

/-- `sizeof(struct page)`. -/
def sizeofPage : UInt64 := 104

/-- `MAX_ORDER_NR_PAGES`. -/
def maxOrderNrPages : UInt64 := oneShl (maxOrder - 1)

/-- `alloc_node_mem_map`: the memory map covers whole blocks of the largest order. -/
def allocNodeMemMap (memblock : Memblock) (node : NodeData) : Kernel Memblock :=
  if node.nodeSpannedPages = 0 then .ok memblock
  else do
    let start := node.nodeStartPfn &&& ~~~(maxOrderNrPages - 1)
    let endPfn := node.nodeStartPfn + node.nodeSpannedPages
    let endPfn := (endPfn + (maxOrderNrPages - 1)) &&& ~~~(maxOrderNrPages - 1)
    let size := (endPfn - start) * sizeofPage
    let (map, memblock) ← memblockAllocRangeNid memblock size smpCacheBytes
    if map = 0 then
      throw (.panic s!"Failed to allocate {size} bytes for node 0 memory map\n")
    return memblock

/-- `calc_memmap_size`. -/
def calcMemmapSize (spannedPages : UInt64) : UInt64 :=
  pageAlign (spannedPages * sizeofPage) >>> pageShift

/-- The pages that `free_area_init_core` sets as managed at first. -/
def freesize (size : ZoneSize) : UInt64 :=
  let memmapPages := calcMemmapSize size.spannedPages
  if size.presentPages ≥ memmapPages then size.presentPages - memmapPages else size.presentPages

/-- `free_area_init_core` and `build_all_zonelists_init`: zones without free blocks, of which those
that span no page stay uninitialised. -/
def freeAreaInitCore (node : NodeData) (pfnBase maxMapnr vaPaOffset : UInt64) : PageAllocator :=
  PageAllocator.initial pfnBase maxMapnr vaPaOffset
    (fun zoneType => (freesize (node.zones zoneType)).toNat)
    fun zoneType => (node.zones zoneType).spannedPages ≠ 0

/-- `reset_all_zones_managed_pages`, which `memblock_free_all` calls before it frees. -/
def resetAllZonesManagedPages (allocator : PageAllocator) : PageAllocator :=
  { allocator with
    nodeZones := fun zoneType => { allocator.nodeZones zoneType with managedPages := 0 } }

/-- `RESERVED_CHUNK_SIZE`. -/
def reservedChunkSize : UInt64 := pageSize <<< 3

/-- What the boot leaves: the sizes of the zones, the region arrays and the allocator, and the
value of `max_low_pfn`. -/
structure BootResult where
  node : NodeData
  memblock : Memblock
  maxLowPfn : UInt64
  allocator : PageAllocator

/-- `init_module`. -/
def initModule (pfnBase vaPaOffset : UInt64) (memblock : Memblock) : Kernel BootResult := do
  let limit ← memblockEndOfDRAM memblock.memory
  let maxLowPfn := pfnDown limit
  let node ← zoneSizesInit memblock.memory
  let memblock ← allocNodeMemMap memblock node
  let allocator := freeAreaInitCore node pfnBase maxLowPfn vaPaOffset
  let (_, memblock) ← memblockAllocRangeNid memblock reservedChunkSize pageSize
  let (_, memblock, allocator) ← memblockFreeAll buddyHooks memblock maxLowPfn
    (resetAllZonesManagedPages allocator)
  return ⟨node, memblock, maxLowPfn, allocator⟩

/-! ### The hand-over into the first zone -/

theorem zoneId_setReserved (page : Page) : page.setReserved.zoneId = page.zoneId := by
  show (((page.flags ||| pgReserved) >>> 62) &&& 3).toNat = _
  rw [UInt64.shiftRight_or, (by decide : pgReserved >>> 62 = 0), UInt64.or_zero]
  rfl

theorem zoneId_unreserve (page : Page) : page.unreserve.zoneId = page.zoneId := by
  show (((page.flags &&& ~~~pgReserved) >>> 62) &&& 3).toNat = _
  rw [UInt64.shiftRight_and, (by decide : ~~~pgReserved >>> 62 = 3), UInt64.and_assoc]
  rfl

section Handed

variable {pages : Set Nat} {managed : Nat → Int} {allocator after : PageAllocator}
  {page order : Nat}

theorem Confined.foldl {Item : Type} {change : PageAllocator → Item → PageAllocator}
    (kept : ∀ allocator item, Confined pages managed allocator →
      Confined pages managed (change allocator item))
    (confined : Confined pages managed allocator) (items : List Item) :
    Confined pages managed (items.foldl change allocator) := by
  induction items generalizing allocator with
  | nil => exact confined
  | cons item rest ih => exact ih (kept allocator item confined)

namespace Confined

variable (confined : Confined pages managed allocator)

include confined

theorem reserveBootmemRegion (range : MemRange) :
    Confined pages managed (reserveBootmemRegion allocator range) := by
  refine Confined.foldl (fun allocator pfn before => ?_) confined _
  rw [reserveBootmemPage]
  split
  · exact before.modifyPage pfn (fun _ => rfl) (fun _ => rfl) zoneId_setReserved
  · exact before

theorem unreservePages (page count : Nat) :
    Confined pages managed (unreservePages allocator page count) := by
  refine Confined.foldl (fun allocator pfn before => ?_) confined _
  exact before.modifyPage pfn (fun _ => rfl) (fun _ => rfl) zoneId_unreserve

theorem addManagedPages (zoneType count : Nat) :
    Confined pages (update managed zoneType (managed zoneType + count))
      (addManagedPages allocator zoneType count) := by
  intro other
  have before := confined other
  have inside : (Xlinux.addManagedPages allocator zoneType count).Inside pages :=
    PageAllocator.Inside.addManagedPages (fun zoneType => (confined zoneType).inside) zoneType count
  refine ⟨⟨inside other, before.outside⟩, before.zoned, fun different order => ?_, ?_⟩
  · exact (list_addManagedPages allocator zoneType count other order).trans
      (before.others different order)
  · show (update allocator.nodeZones zoneType _ other).managedPages = _
    by_cases same : other = zoneType
    · subst same
      rw [update_self, update_self]
      exact congrArg (· + (count : Int)) before.managed
    · rw [update_of_ne same, update_of_ne same]
      exact before.managed

/-- `__free_pages_core` counts the pages of its block for the first zone. -/
theorem freePagesCore (block : BlockOf pages page order)
    (returns : freePagesCore allocator page order = .ok after) :
    Confined pages (update managed 0 (managed 0 + (2 ^ order : Nat))) after := by
  rw [Xlinux.freePagesCore] at returns
  simp only [freePages_setRefcounted] at returns
  have unreserved := confined.unreservePages page (1 <<< order)
  rw [(unreserved 0).zoned page] at returns
  have counted := unreserved.addManagedPages 0 (1 <<< order)
  rw [Nat.one_shiftLeft] at counted returns
  refine Confined.freePagesOk ?_ block returns
  exact counted.modifyPage page (fun _ => rfl) (fun _ => rfl) fun _ => rfl

end Confined

theorem Confined.freeBlocks {blocks : List PageBlock} {count : Int}
    (shape : ∀ handed ∈ blocks, BlockOf pages handed.pfn.toNat handed.order)
    (confined : Confined pages (update 0 0 count) allocator)
    (frees : blocks.foldlM (fun allocator block =>
      Xlinux.freePagesCore allocator block.pfn.toNat block.order) allocator = .ok after) :
    Confined pages (update 0 0 (count + (blocks.flatMap PageBlock.pages).length)) after := by
  induction blocks generalizing allocator count with
  | nil =>
    cases frees
    rw [flatMap_nil, length_nil, Nat.cast_zero, add_zero]
    exact confined
  | cons handed rest ih =>
    obtain ⟨_, first, frees⟩ := bind_ok.mp frees
    have step := confined.freePagesCore (shape handed mem_cons_self) first
    rw [update_idem] at step
    have rest := ih (forall_mem_cons.mp shape).2 step frees
    rw [flatMap_cons, length_append, Nat.cast_add, ← add_assoc]
    have length : handed.pages.length = 2 ^ handed.order := length_range'
    rw [length]
    exact rest

end Handed

/-! ### What the boot does -/

theorem memblockAllocRangeNid_ok {memblock after : Memblock} {size align found : UInt64}
    (arranged : memblock.Arranged)
    (returns : memblockAllocRangeNid memblock size align = .ok (found, after)) :
    after.Arranged ∧ after.memory = memblock.memory := by
  cases stopped : memblock.stopped with
  | true =>
    rw [memblockAllocRangeNid, stopped] at returns
    cases returns
  | false =>
    rw [memblockAllocRangeNid, stopped] at returns
    obtain ⟨_, _, rest⟩ := bind_ok.mp returns
    split at rest
    · cases rest
      exact ⟨arranged, rfl⟩
    · obtain ⟨_, reserves, same⟩ := bind_ok.mp rest
      cases same
      obtain ⟨reserved, added, rfl⟩ := memblockReserve_ok.mp reserves
      exact ⟨⟨arranged.memory, (memblockAddRange_spec arranged.reserved added).1⟩, rfl⟩

theorem allocNodeMemMap_ok {memblock after : Memblock} {node : NodeData}
    (arranged : memblock.Arranged) (returns : allocNodeMemMap memblock node = .ok after) :
    after.Arranged ∧ after.memory = memblock.memory := by
  rw [allocNodeMemMap] at returns
  split at returns
  · cases returns
    exact ⟨arranged, rfl⟩
  · obtain ⟨⟨_, _⟩, allocates, rest⟩ := bind_ok.mp returns
    dsimp only at rest
    split at rest
    · cases rest
    · cases rest
      exact memblockAllocRangeNid_ok arranged allocates

/-- The pages that the boot hands over. -/
def BootResult.handed (result : BootResult) : List Nat := result.memblock.handed result.maxLowPfn

section Boot

variable {pfnBase vaPaOffset : UInt64} {memblock : Memblock} {result : BootResult}
  (arranged : memblock.Arranged) (boots : initModule pfnBase vaPaOffset memblock = .ok result)

include arranged boots

/-- The boot, from the measured zones to the hand-over of what is free then. -/
theorem initModule_ok :
    ∃ handover count limit, handover.Arranged ∧ handover.memory = memblock.memory ∧
      memblockEndOfDRAM memblock.memory = .ok limit ∧ result.maxLowPfn = pfnDown limit ∧
      zoneSizesInit memblock.memory = .ok result.node ∧
      memblockFreeAll buddyHooks handover result.maxLowPfn (resetAllZonesManagedPages
        (freeAreaInitCore result.node pfnBase result.maxLowPfn vaPaOffset)) =
          .ok (count, result.memblock, result.allocator) := by
  rw [initModule] at boots
  obtain ⟨limit, ends, boots⟩ := bind_ok.mp boots
  obtain ⟨node, sizes, boots⟩ := bind_ok.mp boots
  obtain ⟨_, maps, boots⟩ := bind_ok.mp boots
  obtain ⟨⟨_, handover⟩, allocates, boots⟩ := bind_ok.mp boots
  obtain ⟨⟨count, _, allocator⟩, frees, boots⟩ := bind_ok.mp boots
  cases boots
  obtain ⟨mappedArranged, sameMemory⟩ := allocNodeMemMap_ok arranged maps
  obtain ⟨handoverArranged, same⟩ := memblockAllocRangeNid_ok mappedArranged allocates
  exact ⟨handover, count, limit, handoverArranged, same.trans sameMemory, ends, rfl, sizes, frees⟩

/-- After the boot the allocator is confined to the pages that were handed over, and all of them
are counted for the first zone. -/
theorem confined_initModule :
    Confined {pfn | pfn ∈ result.handed} (update 0 0 (result.handed.length : Int))
      result.allocator := by
  obtain ⟨handover, _, _, handoverArranged, _, _, _, _, frees⟩ := initModule_ok arranged boots
  obtain ⟨freed, same⟩ := memblockFreeAll_ok handoverArranged frees
  have handed : result.handed = handover.handed result.maxLowPfn := by
    rw [BootResult.handed, same]
    rfl
  rw [handed, ← zero_add ((handover.handed result.maxLowPfn).length : Int)]
  refine Confined.freeBlocks (fun block member => ?_) ?_ freed
  · obtain ⟨bound, fit⟩ := handedBlocks_shape member
    exact ⟨bound, fit, fun pfn page => mem_flatMap.mpr ⟨block, member, page⟩⟩
  · refine Confined.foldl (fun _ range before => before.reserveBootmemRegion range) ?_ _
    intro zoneType
    refine ⟨⟨⟨nofun, nofun, fun pfn tag => ?_⟩, nofun⟩, fun _ => ?_, fun _ _ => rfl, ?_⟩
    · exact absurd tag (by decide : ¬ zeroPage.isBuddy = true)
    · exact (by decide : zeroPage.zoneId = 0)
    · exact (congrFun (update_eq_self 0 (0 : Nat → Int)) zoneType).symm

/-- The spans of the zones are disjoint, and the first ends at 4 GiB at the latest. -/
theorem spans_initModule :
    (∀ pfn ∈ (result.node.zones 0).span, pfn < 0x100000) ∧ ∀ zoneType < maxNrZones, zoneType ≠ 0 →
        Disjoint (result.node.zones 0).span (result.node.zones zoneType).span := by
  obtain ⟨_, _, limit, _, _, ends, _, sizes, _⟩ := initModule_ok arranged boots
  obtain ⟨first, _, _, _, foundFirst, _⟩ := arranged.memory.ends
  have starts : memblockStartOfDRAM memblock.memory = .ok first.base := by
    rw [memblockStartOfDRAM, foundFirst]
    rfl
  obtain ⟨_, _, found, _, measures, -⟩ := zoneSizesInit_spec arranged.memory starts ends
  obtain rfl := Except.ok.inj (found.symm.trans sizes)
  have below : ∀ pfn ∈ (result.node.zones 0).span,
      pfn < 0x100000 ∧ pfn < zoneLimit first.base limit := by
    intro pfn member
    rw [(measures 0 (by decide)).span, zoneWindow_dma32, Finset.mem_Ico, clampNat,
      clampNat] at member
    dsimp only at member
    have split : zoneLimit first.base limit =
        max (min 0x100000 (limit.toNat / 4096)) (first.base.toNat / 4096) := rfl
    omega
  refine ⟨fun pfn member => (below pfn member).1, fun zoneType inside other => ?_⟩
  refine Finset.disjoint_left.mpr fun pfn low high => ?_
  obtain rfl | rfl | rfl | beyond : zoneType = 0 ∨ zoneType = 1 ∨ zoneType = 2 ∨ 3 ≤ zoneType := by
    omega
  · exact other rfl
  · rw [(measures 1 inside).span, zoneWindow_normal, Finset.mem_Ico, clampNat] at high
    dsimp only at high
    have under := (below pfn low).2
    omega
  · rw [(measures 2 inside).span, zoneWindow_movable] at high
    exact absurd high (Finset.notMem_empty pfn)
  · exact absurd inside (not_lt.mpr beyond)

/-- Where all pages that are handed over lie below 4 GiB, none is handed over twice: a range that
is handed over from the page `0` on reaches far beyond. -/
theorem nodup_handed_initModule (below : ∀ pfn ∈ result.handed, pfn < 0x100000) :
    result.handed.Nodup := by
  obtain ⟨handover, _, limit, kept, sameMemory, ends, maxLow, _, frees⟩ :=
    initModule_ok arranged boots
  have handed : result.handed = handover.freeRanges.flatMap (rangePages result.maxLowPfn) := by
    rw [BootResult.handed, (memblockFreeAll_ok kept frees).2, Memblock.handed,
      Memblock.flatMap_pages_handedBlocks]
    rfl
  rw [handed] at below ⊢
  refine kept.nodup_handedPages (.inr fun span maximal => not_lt.mp fun high => ?_)
  obtain ⟨range, member, rfl⟩ := (kept.isMaximal_iff span).mp maximal
  have filled : range.start.toNat < range.stop.toNat := maximal.filled
  have wraps : 2 ^ 64 - 4096 < range.start.toNat := high
  -- the memory ends after the start of the range, in the last page
  obtain ⟨_, _, last, lastMember, _, foundLast, bounds⟩ := arranged.memory.ends
  obtain ⟨⟨_, inMemory, _, within⟩, _⟩ := maximal.subset ⟨le_rfl, maximal.filled⟩
  rw [sameMemory] at inMemory
  obtain ⟨region, inside, rfl⟩ := mem_map.mp inMemory
  have bound : range.start.toNat < last.span.hi := within.trans_le (bounds region inside).2
  have stops : limit.toNat = last.span.hi := by
    rw [memblockEndOfDRAM, foundLast] at ends
    rw [← Except.ok.inj ends]
    exact toNat_end (arranged.memory.fit last lastMember)
  refine absurd (below 0x100000 (mem_flatMap.mpr ⟨range, member, ?_⟩)) (lt_irrefl _)
  rw [mem_rangePages_iff, toNat_endPfn, maxLow, toNat_pfnDown, startPfn, toNat_pfnUp,
    if_neg (not_le.mpr wraps)]
  omega

end Boot

/-- Every free block lies in the span of its zone, and the managed pages of each zone are those
that were handed over inside its span. -/
def BootResult.ZonesKept (result : BootResult) (allocator : PageAllocator) : Prop :=
  ∀ zoneType < maxNrZones,
    (∀ order, ∀ head ∈ (allocator.nodeZones zoneType).list order, ∀ pfn ∈ block order head,
      pfn ∈ (result.node.zones zoneType).span) ∧
    (allocator.nodeZones zoneType).managedPages =
      ((result.handed.toFinset.filter (· ∈ (result.node.zones zoneType).span)).card : Int)

/-- The zones are kept right by every run of calls after the boot if and only if all pages that
the boot hands over lie in the span of the first zone. -/
theorem initModule_zonesKept_iff {pfnBase vaPaOffset : UInt64} {memblock : Memblock}
    {result : BootResult} (arranged : memblock.Arranged)
    (boots : initModule pfnBase vaPaOffset memblock = .ok result) :
    (∀ calls users, Run.run pageCall ⟨result.allocator, []⟩ calls = .ok users →
      result.ZonesKept users.allocator) ↔
    ∀ pfn ∈ result.handed, pfn ∈ (result.node.zones 0).span := by
  have booted := confined_initModule arranged boots
  obtain ⟨low, disjoint⟩ := spans_initModule arranged boots
  constructor
  · intro always
    -- already after the boot the first zone counts every page, as often as it was handed over
    have counted := ((always [] _ rfl) 0 (by decide)).2
    rw [(booted 0).managed, update_self, Nat.cast_inj] at counted
    have filtered := Finset.card_filter_le result.handed.toFinset (· ∈ (result.node.zones 0).span)
    have all := Finset.filter_card_eq
      (le_antisymm filtered ((toFinset_card_le result.handed).trans_eq counted))
    exact fun pfn member => all pfn (mem_toFinset.mpr member)
  · intro inFirst calls users ran zoneType inside
    have once := nodup_handed_initModule arranged boots fun pfn member =>
      low pfn (inFirst pfn member)
    have start : PageUsers.Confined _ _ ⟨result.allocator, []⟩ :=
      ⟨booted, nofun⟩
    have confined :=
      (Run.run_invariant (fun _ _ _ before returns => before.pageCall returns) start ran).allocator
        zoneType
    rw [confined.managed]
    by_cases first : zoneType = 0
    · subst first
      refine ⟨fun order head member pfn page =>
        inFirst pfn (confined.inside.listed order head member pfn page), ?_⟩
      rw [update_self, Finset.filter_true_of_mem fun pfn member =>
        inFirst pfn (mem_toFinset.mp member), toFinset_card_of_nodup once]
    · refine ⟨fun order head member => ?_, ?_⟩
      · rw [confined.others first order] at member
        cases member
      · rw [update_of_ne first, Finset.filter_false_of_mem fun pfn member =>
          Finset.disjoint_left.mp (disjoint zoneType inside first)
            (inFirst pfn (mem_toFinset.mp member))]
        rfl

/-- What a boot leaves, as far as it can be compared: the pages, the single free pages of the
first zone, the sizes of the first two zones and their counts. -/
def BootResult.summary (result : BootResult) :
    List Nat × List Nat × ZoneSize × ZoneSize × Int × Int :=
  (result.handed, (result.allocator.nodeZones 0).list 0, result.node.zones 0, result.node.zones 1,
    (result.allocator.nodeZones 0).managedPages, (result.allocator.nodeZones 1).managedPages)

/-- A boot that leaves three pages at the bottom of the memory. -/
theorem initModule_zonesKept_iff_low :
    ∃ memblock result, Run.run memblockCall initialMemblock [.add 0x1000 0x25000] = .ok memblock ∧
      initModule 0 0xffffffe000000000 memblock = .ok result ∧ result.handed = [1, 2, 3] ∧
      ∀ calls users, Run.run pageCall ⟨result.allocator, []⟩ calls = .ok users →
        result.ZonesKept users.allocator := by
  obtain ⟨memblock, ran, summary⟩ : ∃ memblock,
      Run.run memblockCall initialMemblock [.add 0x1000 0x25000] = .ok memblock ∧
      (initModule 0 0xffffffe000000000 memblock).map BootResult.summary =
        .ok ([1, 2, 3], [1], ⟨1, 37, 37⟩, ⟨0, 0, 0⟩, 3, 0) := ⟨_, rfl, by decide +kernel⟩
  obtain ⟨result, boots, seen⟩ := exists_ok_of_map summary
  simp only [BootResult.summary, Prod.mk.injEq] at seen
  obtain ⟨handed, _, span, _⟩ := seen
  refine ⟨memblock, result, ran, boots, handed, ?_⟩
  refine (initModule_zonesKept_iff (normalised_of_run ran).arranged boots).mpr ?_
  rw [handed, span]
  decide

/-- Memory on both sides of 4 GiB. The page above goes to the free list of the first zone, which
ends at 4 GiB, and is counted there. -/
theorem initModule_page_above_4GiB :
    ∃ memblock result,
      Run.run memblockCall initialMemblock [.add 0xfffc0000 0x3d000, .add 0x100001000 0x1000] =
        .ok memblock ∧
      initModule 0 0xffffffe000000000 memblock = .ok result ∧
      result.summary = ([0xfffc0, 0x100001], [0x100001, 0xfffc0], ⟨0xfffc0, 0x40, 0x3d⟩,
        ⟨0x100000, 2, 1⟩, 2, 0) ∧
      ¬ result.ZonesKept result.allocator := by
  obtain ⟨memblock, ran, summary⟩ : ∃ memblock,
      Run.run memblockCall initialMemblock [.add 0xfffc0000 0x3d000, .add 0x100001000 0x1000] =
        .ok memblock ∧
      (initModule 0 0xffffffe000000000 memblock).map BootResult.summary =
        .ok ([0xfffc0, 0x100001], [0x100001, 0xfffc0], ⟨0xfffc0, 0x40, 0x3d⟩,
          ⟨0x100000, 2, 1⟩, 2, 0) := ⟨_, rfl, by decide +kernel⟩
  obtain ⟨result, boots, seen⟩ := exists_ok_of_map summary
  refine ⟨memblock, result, ran, boots, seen, fun kept => ?_⟩
  simp only [BootResult.summary, Prod.mk.injEq] at seen
  obtain ⟨_, listed, span, _⟩ := seen
  have inside := (kept 0 (by decide)).1 0 0x100001 (by rw [listed]; decide) 0x100001 (by decide)
  rw [span] at inside
  exact absurd inside (by decide)

end Xlinux
