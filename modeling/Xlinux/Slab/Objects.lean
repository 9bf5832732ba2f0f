/-
This file models how `slab/slab.c` hands out and takes back the objects of one
cache. A slab is a block of pages; its first page descriptor says how many
objects are in use and where the stack of free indices is kept. That stack is a
part of memory, byte by byte, like the objects themselves: in some caches it
stands inside a free object. New page blocks come from the page allocator, which
is outside this file; so is what a constructor writes into its object.
-/

import Xlinux.Slab.Cache

namespace Xlinux

open Function (update)

/-! ### The state of a cache -/

/-- The bytes of memory, by address. -/
abbrev Memory := Nat → UInt8

/-- Overwrite a range of memory. -/
def Memory.fill (memory : Memory) (start length : Nat) (content : Nat → UInt8) : Memory :=
  fun addr => if start ≤ addr ∧ addr < start + length then content addr else memory addr

/-- The fields of `struct page` that a slab uses; a freelist of `0` is `NULL`. -/
structure SlabPage where
  sMem : Nat
  active : Nat
  freelist : Nat
  deriving DecidableEq, Repr

/-- The three lists of `struct kmem_cache_node`. -/
inductive SlabList
  | slabsPartial
  | slabsFull
  | slabsFree
  deriving DecidableEq, Repr

/-- `struct kmem_cache_node`. A slab is given by the address of its first page. -/
structure KmemCacheNode where
  lists : SlabList → List Nat
  totalSlabs : Int
  freeSlabs : Int
  freeObjects : Int

/-- A node after `kmem_cache_node_init`. -/
def emptyNode : KmemCacheNode := ⟨fun _ => [], 0, 0, 0⟩

/-- What the calls on a cache change. -/
structure Slabs where
  memory : Memory
  pages : Nat → SlabPage
  node : KmemCacheNode
  cpuCache : ArrayCache

/-- A write to one page descriptor. -/
def Slabs.modifyPage (slabs : Slabs) (page : Nat) (change : SlabPage → SlabPage) : Slabs :=
  { slabs with pages := update slabs.pages page (change (slabs.pages page)) }

/-- `list_del(&page->slab_list)`. -/
def KmemCacheNode.listDel (node : KmemCacheNode) (page : Nat) : KmemCacheNode :=
  { node with lists := fun list => (node.lists list).erase page }

/-- `list_add(&page->slab_list, list)`. -/
def KmemCacheNode.listAdd (node : KmemCacheNode) (page : Nat) (list : SlabList) : KmemCacheNode :=
  { node with lists := update node.lists list (page :: node.lists list) }

/-- `list_add_tail(&page->slab_list, list)`. -/
def KmemCacheNode.listAddTail (node : KmemCacheNode) (page : Nat) (list : SlabList) :
    KmemCacheNode :=
  { node with lists := update node.lists list (node.lists list ++ [page]) }

/-! ### Objects and free indices -/

/-- `index_to_obj`. -/
def indexToObj (cache : KmemCache) (page : SlabPage) (idx : Nat) : Nat :=
  page.sMem + cache.size * idx

/-- `obj_to_index`. -/
def objToIndex (cache : KmemCache) (page : SlabPage) (obj : Nat) : Nat :=
  (obj - page.sMem) / cache.size

/-- `virt_to_head_page`: no page of a slab is a compound page, so this is the page of the
address. -/
def virtToHeadPage (obj : Nat) : Nat := obj / 4096 * 4096

/-- `get_free_obj`. -/
def getFreeObj (slabs : Slabs) (page idx : Nat) : Kernel Nat :=
  if (slabs.pages page).freelist = 0 then .error .bug
  else .ok (slabs.memory ((slabs.pages page).freelist + idx)).toNat

/-- `set_free_obj`. -/
def setFreeObj (slabs : Slabs) (page idx val : Nat) : Slabs :=
  { slabs with
    memory := update slabs.memory ((slabs.pages page).freelist + idx) (UInt8.ofNat val) }

/-- `slab_get_obj`. -/
def slabGetObj (cache : KmemCache) (slabs : Slabs) (page : Nat) : Kernel (Nat × Slabs) := do
  let idx ← getFreeObj slabs page (slabs.pages page).active
  let objp := indexToObj cache (slabs.pages page) idx
  return (objp, slabs.modifyPage page fun page => { page with active := page.active + 1 })

/-- `ac->entry[ac->avail++] = objp`. -/
def pushEntry (slabs : Slabs) (objp : Nat) : Slabs :=
  { slabs with cpuCache := { slabs.cpuCache with entry := slabs.cpuCache.entry ++ [objp] } }

/-- The loop of `alloc_block`: what is left of the batch, and the new state. The counter is
decremented by the test that ends the loop, unless the slab is full. -/
def allocBlockLoop (cache : KmemCache) (page : Nat) : Nat → Slabs → Kernel (Int × Slabs)
  | 0, slabs => .ok (if (slabs.pages page).active < cache.num then -1 else 0, slabs)
  | batchcount + 1, slabs =>
    if (slabs.pages page).active < cache.num then do
      let (objp, slabs) ← slabGetObj cache slabs page
      allocBlockLoop cache page batchcount (pushEntry slabs objp)
    else .ok (batchcount + 1, slabs)

/-- `alloc_block`. -/
def allocBlock (cache : KmemCache) (slabs : Slabs) (page batchcount : Nat) :
    Kernel (Int × Slabs) :=
  if (slabs.pages page).active ≥ cache.num then .error .bug
  else allocBlockLoop cache page batchcount slabs

/-- `fixup_slab_list`. -/
def fixupSlabList (cache : KmemCache) (slabs : Slabs) (page : Nat) : Slabs :=
  let slabs := { slabs with node := slabs.node.listDel page }
  if (slabs.pages page).active = cache.num then
    let slabs := { slabs with node := slabs.node.listAdd page .slabsFull }
    if cache.objfreelist then slabs.modifyPage page fun page => { page with freelist := 0 }
    else slabs
  else { slabs with node := slabs.node.listAdd page .slabsPartial }

/-- `get_first_slab`. -/
def getFirstSlab (node : KmemCacheNode) : Option Nat × KmemCacheNode :=
  match node.lists .slabsPartial with
  | page :: _ => (some page, node)
  | [] =>
    match node.lists .slabsFree with
    | page :: _ => (some page, { node with freeSlabs := node.freeSlabs - 1 })
    | [] => (none, node)

/-! ### A new slab -/

/-- A page block from the page allocator, and the bytes that the constructor writes there. -/
structure FreshPages where
  page : Nat
  constructed : Nat → UInt8

/-- `alloc_slabmgmt` and `slab_map_pages`. -/
def allocSlabmgmt (cache : KmemCache) (slabs : Slabs) (page : Nat) : Slabs :=
  let freelist := if cache.objfreelist then 0
    else page + slabBytes cache.gfporder - cache.freelistSize
  slabs.modifyPage page fun _ => ⟨page, 0, freelist⟩

/-- The body of the loop of `cache_init_objs`. -/
def cacheInitObj (cache : KmemCache) (fresh : FreshPages) (slabs : Slabs) (i : Nat) : Slabs :=
  let objp := indexToObj cache (slabs.pages fresh.page) i
  let slabs := if cache.hasCtor then
      { slabs with memory := slabs.memory.fill objp cache.objectSize fresh.constructed }
    else slabs
  setFreeObj slabs fresh.page i i

/-- `cache_init_objs`. -/
def cacheInitObjs (cache : KmemCache) (fresh : FreshPages) (slabs : Slabs) : Slabs :=
  let slabs := if cache.objfreelist then
      slabs.modifyPage fresh.page fun page =>
        { page with freelist := indexToObj cache page (cache.num - 1) }
    else slabs
  (List.range cache.num).foldl (cacheInitObj cache fresh) slabs

/-- `cache_grow_begin`. -/
def cacheGrowBegin (cache : KmemCache) (fresh : FreshPages) (slabs : Slabs) : Slabs :=
  cacheInitObjs cache fresh (allocSlabmgmt cache slabs fresh.page)

/-- `cache_grow_end`. -/
def cacheGrowEnd (cache : KmemCache) (slabs : Slabs) (page : Nat) : Slabs :=
  let node := { slabs.node with totalSlabs := slabs.node.totalSlabs + 1 }
  let slabs := if (slabs.pages page).active = 0 then
      { slabs with node := { node.listAddTail page .slabsFree with
        freeSlabs := node.freeSlabs + 1 } }
    else fixupSlabList cache { slabs with node } page
  { slabs with node := { slabs.node with
    freeObjects := slabs.node.freeObjects + (cache.num - (slabs.pages page).active : Int) } }

/-! ### Allocation -/

/-- The loop of `cache_alloc_refill`. -/
def refillLoop (cache : KmemCache) : Nat → Int → Slabs → Kernel Slabs
  | 0, batchcount, slabs => if batchcount > 0 then .error .endless else .ok slabs
  | turns + 1, batchcount, slabs =>
    if batchcount > 0 then
      match getFirstSlab slabs.node with
      | (none, node) => .ok { slabs with node }
      | (some page, node) => do
        let (batchcount, slabs) ← allocBlock cache { slabs with node } page batchcount.toNat
        refillLoop cache turns batchcount (fixupSlabList cache slabs page)
    else .ok slabs

/-- The part of `cache_alloc_refill` that uses the slabs that are there. -/
def refillFromSlabs (cache : KmemCache) (slabs : Slabs) : Kernel Slabs :=
  if slabs.node.freeObjects = 0 then .ok slabs
  else do
    let batchcount := slabs.cpuCache.batchcount
    let slabs ← refillLoop cache batchcount batchcount slabs
    return { slabs with node := { slabs.node with
      freeObjects := slabs.node.freeObjects - slabs.cpuCache.entry.length } }

/-- The part of `cache_alloc_refill` that grows the cache when nothing was found. The batch is
still the whole one then. -/
def refillByGrowing (cache : KmemCache) (fresh : FreshPages) (slabs : Slabs) : Kernel Slabs :=
  if slabs.cpuCache.entry = [] then do
    let slabs := cacheGrowBegin cache fresh slabs
    let (_, slabs) ← allocBlock cache slabs fresh.page slabs.cpuCache.batchcount
    return cacheGrowEnd cache slabs fresh.page
  else .ok slabs

/-- `return ac->entry[--ac->avail]`. -/
def popEntry (slabs : Slabs) : Option Nat × Slabs :=
  (slabs.cpuCache.entry.getLast?,
    { slabs with cpuCache := { slabs.cpuCache with entry := slabs.cpuCache.entry.dropLast } })

/-- `cache_alloc_refill`. -/
def cacheAllocRefill (cache : KmemCache) (fresh : FreshPages) (slabs : Slabs) :
    Kernel (Option Nat × Slabs) :=
  if slabs.cpuCache.entry.length > 0 then .error .bug
  else do
    let slabs ← refillFromSlabs cache slabs
    let slabs ← refillByGrowing cache fresh slabs
    return popEntry slabs

/-- `____cache_alloc`. -/
def cacheAlloc (cache : KmemCache) (fresh : FreshPages) (slabs : Slabs) :
    Kernel (Option Nat × Slabs) :=
  if slabs.cpuCache.entry.length > 0 then .ok (popEntry slabs)
  else cacheAllocRefill cache fresh slabs

/-- `__GFP_ZERO`. -/
def gfpZero : UInt32 := 0x100

/-- `slab_alloc`. -/
def slabAlloc (cache : KmemCache) (flags : UInt32) (fresh : FreshPages) (slabs : Slabs) :
    Kernel (Option Nat × Slabs) := do
  match ← cacheAlloc cache fresh slabs with
  | (some objp, slabs) =>
    if flags &&& gfpZero ≠ 0 then
      return (some objp,
        { slabs with memory := slabs.memory.fill objp cache.objectSize fun _ => 0 })
    else return (some objp, slabs)
  | (none, slabs) => return (none, slabs)

/-! ### Freeing -/

/-- `slab_put_obj`. -/
def slabPutObj (cache : KmemCache) (slabs : Slabs) (page objp : Nat) : Slabs :=
  let objnr := objToIndex cache (slabs.pages page) objp
  let slabs := slabs.modifyPage page fun page =>
    { page with
      active := page.active - 1
      freelist := if page.freelist = 0 then objp else page.freelist }
  setFreeObj slabs page (slabs.pages page).active objnr

/-- The body of the loop of `free_block`. -/
def freeBlockObj (cache : KmemCache) (slabs : Slabs) (objp : Nat) : Slabs :=
  let page := virtToHeadPage objp
  let slabs := { slabs with node := slabs.node.listDel page }
  let slabs := slabPutObj cache slabs page objp
  if (slabs.pages page).active = 0 then
    { slabs with node := { slabs.node.listAdd page .slabsFree with
      freeSlabs := slabs.node.freeSlabs + 1 } }
  else { slabs with node := slabs.node.listAddTail page .slabsPartial }

/-- `free_block`. -/
def freeBlock (cache : KmemCache) (slabs : Slabs) (objpp : List Nat) : Slabs :=
  objpp.foldl (freeBlockObj cache) { slabs with node := { slabs.node with
      freeObjects := slabs.node.freeObjects + objpp.length } }

/-- `cache_flusharray`. The list of slabs to destroy stays empty. -/
def cacheFlusharray (cache : KmemCache) (slabs : Slabs) : Slabs :=
  let batchcount := slabs.cpuCache.batchcount
  let slabs := freeBlock cache slabs (slabs.cpuCache.entry.take batchcount)
  { slabs with cpuCache := { slabs.cpuCache with entry := slabs.cpuCache.entry.drop batchcount } }

/-- `___cache_free`. -/
def cacheFree (cache : KmemCache) (slabs : Slabs) (objp : Nat) : Slabs :=
  let slabs := if slabs.cpuCache.entry.length ≥ slabs.cpuCache.limit then
      cacheFlusharray cache slabs
    else slabs
  pushEntry slabs objp

end Xlinux
