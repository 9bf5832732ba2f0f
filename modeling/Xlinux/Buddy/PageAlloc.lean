/-
This file models the page allocator `buddy/buddy.c` above the zones: the boot
hand-over, which gives it the free pages of memblock, the reference counts of
pages, the per-cpu list that serves single pages, the zonelist, and the calls of
the other modules, `alloc_pages`, `__free_pages` and the exact variants. What
`prep_new_page` does to the contents of pages is left out; it does nothing else.
-/

import Xlinux.Buddy.Zone

namespace Xlinux

/-! ### The state -/

/-- `MAX_NR_ZONES`. -/
def maxNrZones : Nat := 3

/-- `struct per_cpu_pages`, with its one list. -/
structure PerCpuPages where
  count : Int
  batch : Nat
  lists : List Nat
  deriving DecidableEq, Repr

/-- The state of the allocator: the memory map and where it lies, the zones of the node by
number, the zone numbers of its zonelist, and the per-cpu pages, which all zones share. -/
structure PageAllocator where
  memMap : MemMap
  pfnBase : UInt64
  maxMapnr : UInt64
  vaPaOffset : UInt64
  nodeZones : Nat → Zone
  zonerefs : List Nat
  pageset : PerCpuPages

/-- `build_zonerefs_node`: the managed zones, the highest first. -/
def buildZonerefsNode (nodeZones : Nat → Zone) : List Nat :=
  (List.range maxNrZones).reverse.filter fun zoneType => (nodeZones zoneType).managedPages ≠ 0

/-- `setup_pageset` with the batch that `build_all_zonelists_init` passes. -/
def setupPageset (batch : Nat) : PerCpuPages := ⟨0, max 1 (1 * batch), []⟩

/-- The allocator as `init_module` has it before `memblock_free_all`: a zeroed memory map, and
zones without free blocks, some of which may be without pages and not initialised. -/
def PageAllocator.initial (pfnBase maxMapnr vaPaOffset : UInt64) (managedPages : Nat → Int)
    (initialized : Nat → Bool) : PageAllocator :=
  let nodeZones := fun zoneType =>
    { emptyZone (managedPages zoneType) with initialized := initialized zoneType }
  { memMap := fun _ => zeroPage
    pfnBase, maxMapnr, vaPaOffset, nodeZones
    zonerefs := buildZonerefsNode nodeZones
    pageset := setupPageset 0 }

/-- A write to one page descriptor. -/
def PageAllocator.modifyPage (allocator : PageAllocator) (pfn : Nat) (change : Page → Page) :
    PageAllocator :=
  { allocator with memMap := allocator.memMap.modify pfn change }

/-- The part of the state that belongs to a zone. The list heads of a zone that was never
initialised are null pointers. -/
def PageAllocator.zoneState (allocator : PageAllocator) (zoneType : Nat) : Kernel ZoneState :=
  if (allocator.nodeZones zoneType).initialized then
    .ok ⟨allocator.memMap, allocator.nodeZones zoneType⟩
  else .error .nullPointer

/-- Put the part that belongs to a zone back. -/
def PageAllocator.withZone (allocator : PageAllocator) (zoneType : Nat) (state : ZoneState) :
    PageAllocator :=
  { allocator with
    memMap := state.memMap
    nodeZones := Function.update allocator.nodeZones zoneType state.zone }

/-! ### Freeing -/

/-- `__free_pages_ok` and `free_one_page`. -/
def freePagesOk (allocator : PageAllocator) (page order : Nat) : Kernel PageAllocator := do
  let zoneType := (allocator.memMap page).zoneId
  let state ← allocator.zoneState zoneType
  return allocator.withZone zoneType (freeOnePage state page order)

/-- The decrement of `put_page_testzero`. -/
def Page.putPage (page : Page) : Page := { page with refcount := page.refcount - 1 }

/-- `__free_pages`. -/
def freePages (allocator : PageAllocator) (page order : Nat) : Kernel PageAllocator :=
  let allocator := allocator.modifyPage page Page.putPage
  if (allocator.memMap page).refcount = 0 then freePagesOk allocator page order
  else .ok allocator

/-- `PG_reserved` as a mask. -/
def pgReserved : UInt64 := oneShl 12

/-- `__ClearPageReserved` and `set_page_count(page, 0)`. -/
def Page.unreserve (page : Page) : Page :=
  { page with flags := page.flags &&& ~~~pgReserved, refcount := 0 }

/-- `__SetPageReserved`. -/
def Page.setReserved (page : Page) : Page := { page with flags := page.flags ||| pgReserved }

/-- `set_page_refcounted`. -/
def Page.setRefcounted (page : Page) : Page := { page with refcount := 1 }

/-- The loop of `__free_pages_core`. -/
def unreservePages (allocator : PageAllocator) (page nrPages : Nat) : PageAllocator :=
  (List.range' page nrPages).foldl
    (fun allocator pfn => allocator.modifyPage pfn Page.unreserve) allocator

/-- `atomic_long_add(nr_pages, &zone->managed_pages)`. -/
def addManagedPages (allocator : PageAllocator) (zoneType nrPages : Nat) : PageAllocator :=
  let zone := allocator.nodeZones zoneType
  { allocator with
    nodeZones := Function.update allocator.nodeZones zoneType
      { zone with managedPages := zone.managedPages + nrPages } }

/-- `__free_pages_core`. -/
def freePagesCore (allocator : PageAllocator) (page order : Nat) : Kernel PageAllocator :=
  let nrPages := 1 <<< order
  let allocator := unreservePages allocator page nrPages
  let allocator := addManagedPages allocator (allocator.memMap page).zoneId nrPages
  freePages (allocator.modifyPage page Page.setRefcounted) page order

/-- `pfn_valid`. -/
def PageAllocator.pfnValid (allocator : PageAllocator) (pfn : UInt64) : Bool :=
  pfn ≥ allocator.pfnBase ∧ pfn - allocator.pfnBase < allocator.maxMapnr

/-- The body of the loop of `reserve_bootmem_region`. -/
def reserveBootmemPage (allocator : PageAllocator) (pfn : Nat) : PageAllocator :=
  if allocator.pfnValid (UInt64.ofNat pfn) then allocator.modifyPage pfn Page.setReserved
  else allocator

/-- `reserve_bootmem_region`. -/
def reserveBootmemRegion (allocator : PageAllocator) (range : MemRange) : PageAllocator :=
  let startPfn := (pfnDown range.start).toNat
  let endPfn := (pfnUp range.stop).toNat
  (List.range' startPfn (endPfn - startPfn)).foldl reserveBootmemPage allocator

/-- The function pointers that `init_module` sets. -/
def buddyHooks : BootHooks PageAllocator where
  reserveBootmemRegionFn := some fun allocator range => .ok (reserveBootmemRegion allocator range)
  freePagesCoreFn := some fun allocator pfn order => freePagesCore allocator pfn.toNat order

/-! ### Allocating -/

/-- The refill of the per-cpu list. -/
def refillPcplist (allocator : PageAllocator) (zoneType : Nat) : Kernel PageAllocator := do
  let pcp := allocator.pageset
  let state ← allocator.zoneState zoneType
  let (lists, state) ← rmqueueBulk 0 pcp.batch pcp.lists state
  return { allocator.withZone zoneType state with
    pageset := { pcp with count := pcp.count + (lists.length - pcp.lists.length : Int), lists } }

/-- The second half of `__rmqueue_pcplist`: the first page of the per-cpu list, if any. -/
def takePcplist (allocator : PageAllocator) : Option Nat × PageAllocator :=
  let pcp := allocator.pageset
  match pcp.lists with
  | [] => (none, allocator)
  | page :: lists =>
    (some page, { allocator with pageset := { pcp with count := pcp.count - 1, lists } })

/-- `__rmqueue_pcplist` and `rmqueue_pcplist`. -/
def rmqueuePcplist (allocator : PageAllocator) (zoneType : Nat) :
    Kernel (Option Nat × PageAllocator) :=
  if allocator.pageset.lists.isEmpty then takePcplist <$> refillPcplist allocator zoneType
  else .ok (takePcplist allocator)

/-- `rmqueue`. -/
def rmqueue (allocator : PageAllocator) (zoneType order : Nat) : Kernel (Nat × PageAllocator) :=
  if order = 0 then do
    match ← rmqueuePcplist allocator zoneType with
    | (some page, allocator) => return (page, allocator)
    | (none, _) => throw (.panic s!"bad order({order})\n")
  else do
    let state ← allocator.zoneState zoneType
    let (page, state) ← rmqueueOrPanic state order
    return (page, allocator.withZone zoneType state)

/-- `gfp_zone`, with the masks and the table of `include/gfp.h`. -/
def gfpZone (gfpMask : UInt32) : Nat :=
  let bit := (gfpMask &&& (0x01 ||| 0x02 ||| 0x04 ||| 0x08)).toNat
  let gfpZoneTable := (1 <<< (0 * 2)) ||| (1 <<< (0x01 * 2)) ||| (1 <<< (0x02 * 2)) |||
    (0 <<< (0x04 * 2))
  (gfpZoneTable >>> (bit * 2)) &&& ((1 <<< 2) - 1)

/-- `first_zones_zonelist`: the zonelist from its first zone at or below the highest one allowed.
The entry after the last zone is a null pointer with the number zero. -/
def firstZonesZonelist (zonerefs : List Nat) (highestZoneidx : Nat) : List Nat :=
  zonerefs.dropWhile fun zoneType => zoneType > highestZoneidx

/-- `__alloc_pages_nodemask` and `get_page_from_freelist`. The loop over the zonelist ends with
its first zone, because `rmqueue` returns a page or panics. -/
def allocPages (allocator : PageAllocator) (gfpMask : UInt32) (order : Nat) :
    Kernel (Nat × PageAllocator) :=
  if order ≥ maxOrder then .error (.panic s!"bad alloc order {order}\n")
  else
    match firstZonesZonelist allocator.zonerefs (gfpZone gfpMask) with
    | [] => .error (.panic "alloc failed!\n")
    | zoneType :: _ => rmqueue allocator zoneType order

/-! ### Allocation by address -/

/-- `page_address`. -/
def PageAllocator.pageAddress (allocator : PageAllocator) (page : Nat) : UInt64 :=
  (UInt64.ofNat page <<< pageShift) + allocator.vaPaOffset

/-- `virt_to_pfn`. -/
def PageAllocator.virtToPfn (allocator : PageAllocator) (vaddr : UInt64) : UInt64 :=
  pfnDown (vaddr - allocator.vaPaOffset)

/-- `__get_free_pages`, which masks `__GFP_HIGHMEM` out. -/
def getFreePages (allocator : PageAllocator) (gfpMask : UInt32) (order : Nat) :
    Kernel (UInt64 × PageAllocator) := do
  let (page, allocator) ← allocPages allocator (gfpMask &&& ~~~0x02) order
  return (allocator.pageAddress page, allocator)

/-- `free_pages`. -/
def freePagesAt (allocator : PageAllocator) (addr : UInt64) (order : Nat) :
    Kernel PageAllocator :=
  if addr ≠ 0 then
    let pfn := allocator.virtToPfn addr
    if !allocator.pfnValid pfn then .error .bug else freePages allocator pfn.toNat order
  else .ok allocator

/-- The loop `while (addr < end) { free_page(addr); addr += PAGE_SIZE; }`. -/
def freePageLoop (limit : UInt64) : Nat → UInt64 → PageAllocator → Kernel PageAllocator
  | 0, _, _ => .error .endless
  | turns + 1, addr, allocator =>
    if addr < limit then do
      let allocator ← freePagesAt allocator addr 0
      freePageLoop limit turns (addr + pageSize) allocator
    else .ok allocator

/-- `make_alloc_exact`. The loop is entered at most `2 ^ order` pages before its end. -/
def makeAllocExact (allocator : PageAllocator) (addr : UInt64) (order : Nat) (size : UInt64) :
    Kernel (UInt64 × PageAllocator) :=
  if addr ≠ 0 then do
    let allocEnd := addr + (pageSize <<< UInt64.ofNat order)
    let used := addr + pageAlign size
    let allocator ← freePageLoop allocEnd (2 ^ order + 1) used allocator
    return (addr, allocator)
  else .ok (addr, allocator)

/-- `get_order`. -/
def getOrder (size : UInt64) : Nat := fls64 ((size - 1) >>> pageShift)

/-- `alloc_pages_exact`, which refuses `__GFP_COMP`. -/
def allocPagesExact (allocator : PageAllocator) (size : UInt64) (gfpMask : UInt32) :
    Kernel (UInt64 × PageAllocator) := do
  let order := getOrder size
  if gfpMask &&& 0x40000 ≠ 0 then throw .bug
  let (addr, allocator) ← getFreePages allocator gfpMask order
  makeAllocExact allocator addr order size

/-- `free_pages_exact`. -/
def freePagesExact (allocator : PageAllocator) (virt size : UInt64) : Kernel PageAllocator :=
  let limit := virt + pageAlign size
  freePageLoop limit ((limit - virt).toNat / 4096 + 2) virt allocator

end Xlinux
