/-
This file models one zone of the page allocator `buddy/buddy.c`: the page
descriptors with the tag and the order of a free block, the eleven free lists,
and the functions that move blocks between them. A page is given by its frame
number. The circular list through the field `lru` is the list of the frame
numbers on it, so `list_del` takes a page off the list it is on.
-/

import Xlinux.Memblock.FreeAll

namespace Xlinux

/-! ### Page descriptors -/

/-- `struct page`, with the fields the allocator uses; `_refcount` is `refcount`. -/
structure Page where
  flags : UInt64
  pagePrivate : UInt64
  pageType : UInt32
  refcount : Int
  deriving DecidableEq, Repr

/-- A page descriptor of a zeroed memory map. -/
def zeroPage : Page := ⟨0, 0, 0, 0⟩

/-- The array `mem_map`, by frame number. -/
abbrev MemMap := Nat → Page

/-- A write to one page descriptor. -/
def MemMap.modify (memMap : MemMap) (pfn : Nat) (change : Page → Page) : MemMap :=
  Function.update memMap pfn (change (memMap pfn))

/-- `PAGE_TYPE_BASE`. -/
def pageTypeBase : UInt32 := 0xf0000000

/-- `PG_buddy`. -/
def pgBuddy : UInt32 := 0x00000080

/-- `PageBuddy`. -/
def Page.isBuddy (page : Page) : Bool :=
  page.pageType &&& (pageTypeBase ||| pgBuddy) = pageTypeBase

/-- `__SetPageBuddy`. -/
def Page.setBuddy (page : Page) : Page := { page with pageType := page.pageType &&& ~~~pgBuddy }

/-- `__ClearPageBuddy`. -/
def Page.clearBuddy (page : Page) : Page := { page with pageType := page.pageType ||| pgBuddy }

/-- `page_order`, an `unsigned int` read from the `unsigned long` field `private`. -/
def Page.order (page : Page) : Nat := page.pagePrivate.toUInt32.toNat

/-- `set_page_private`. -/
def Page.setPrivate (page : Page) (value : UInt64) : Page := { page with pagePrivate := value }

/-- `page_zone_id` and `page_zonenum`: the zone bits are the highest two of `flags`. -/
def Page.zoneId (page : Page) : Nat := ((page.flags >>> 62) &&& 3).toNat

/-- `set_page_order`. -/
def Page.setOrder (page : Page) (order : Nat) : Page :=
  (page.setPrivate (UInt64.ofNat order)).setBuddy

/-! ### The free lists -/

/-- `struct free_area`. -/
structure FreeArea where
  freeList : List Nat
  nrFree : Int
  deriving DecidableEq, Repr

/-- `struct zone`, with its free areas by order. -/
structure Zone where
  freeArea : Nat → FreeArea
  managedPages : Int
  initialized : Bool

/-- A zone after `zone_init_internals` and `init_currently_empty_zone`. -/
def emptyZone (managedPages : Int) : Zone := ⟨fun _ => ⟨[], 0⟩, managedPages, true⟩

/-- What the functions on one zone change: the zone and the page descriptors. -/
structure ZoneState where
  memMap : MemMap
  zone : Zone

/-- A write to one free area. -/
def Zone.modify (zone : Zone) (order : Nat) (change : FreeArea → FreeArea) : Zone :=
  { zone with freeArea := Function.update zone.freeArea order (change (zone.freeArea order)) }

/-- `add_to_free_list`. -/
def addToFreeList (state : ZoneState) (pfn order : Nat) : ZoneState :=
  { state with
    zone := state.zone.modify order fun area => ⟨pfn :: area.freeList, area.nrFree + 1⟩ }

/-- `add_to_free_list_tail`. -/
def addToFreeListTail (state : ZoneState) (pfn order : Nat) : ZoneState :=
  { state with
    zone := state.zone.modify order fun area => ⟨area.freeList ++ [pfn], area.nrFree + 1⟩ }

/-- `list_del(&page->lru)` for a page on a free list. -/
def Zone.listDel (zone : Zone) (pfn : Nat) : Zone :=
  { zone with
    freeArea := fun order => { zone.freeArea order with
      freeList := (zone.freeArea order).freeList.erase pfn } }

/-- `del_page_from_free_list`. -/
def delPageFromFreeList (state : ZoneState) (pfn order : Nat) : ZoneState where
  memMap := state.memMap.modify pfn fun page => (page.clearBuddy).setPrivate 0
  zone := (state.zone.listDel pfn).modify order fun area => { area with nrFree := area.nrFree - 1 }

/-- `set_page_order` on a page of the memory map. -/
def setPageOrder (state : ZoneState) (pfn order : Nat) : ZoneState :=
  { state with memMap := state.memMap.modify pfn fun page => page.setOrder order }

/-! ### Freeing a block -/

/-- `__find_buddy_pfn`. -/
def findBuddyPfn (pfn order : Nat) : Nat := pfn ^^^ (1 <<< order)

/-- `page_is_buddy`. -/
def pageIsBuddy (memMap : MemMap) (page buddy order : Nat) : Bool :=
  if !(memMap buddy).isBuddy then false
  else if (memMap buddy).order ≠ order then false
  else if (memMap page).zoneId ≠ (memMap buddy).zoneId then false
  else true

/-- The locals of `__free_one_page`. `buddy_pfn` is not read before it is written. -/
structure Merge where
  state : ZoneState
  pfn : Nat
  order : Nat
  buddyPfn : Nat

/-- The loop of `__free_one_page`. The order grows up to `MAX_ORDER - 1`. -/
def mergeLoop : Nat → Merge → Merge
  | 0, merge => merge
  | turns + 1, merge =>
    if merge.order < maxOrder - 1 then
      let buddyPfn := findBuddyPfn merge.pfn merge.order
      if !pageIsBuddy merge.state.memMap merge.pfn buddyPfn merge.order then
        { merge with buddyPfn }
      else
        mergeLoop turns
          { state := delPageFromFreeList merge.state buddyPfn merge.order
            pfn := buddyPfn &&& merge.pfn
            order := merge.order + 1
            buddyPfn }
    else merge

/-- `buddy_merge_likely`. -/
def buddyMergeLikely (memMap : MemMap) (pfn buddyPfn order : Nat) : Bool :=
  if order ≥ maxOrder - 2 then false
  else
    let combinedPfn := buddyPfn &&& pfn
    let higherBuddy := findBuddyPfn combinedPfn (order + 1)
    pageIsBuddy memMap combinedPfn higherBuddy (order + 1)

/-- `__free_one_page`. -/
def freeOnePage (state : ZoneState) (pfn order : Nat) : ZoneState :=
  let merge := mergeLoop (maxOrder - order) ⟨state, pfn, order, 0⟩
  let state := setPageOrder merge.state merge.pfn merge.order
  let toTail := buddyMergeLikely state.memMap merge.pfn merge.buddyPfn merge.order
  if toTail then addToFreeListTail state merge.pfn merge.order
  else addToFreeList state merge.pfn merge.order

/-! ### Taking a block -/

/-- `expand`, with `high` as it is on entry. -/
def expand (page low : Nat) : Nat → ZoneState → ZoneState
  | 0, state => state
  | high + 1, state =>
    if high + 1 > low then
      let half := page + 1 <<< high
      expand page low high (setPageOrder (addToFreeList state half high) half high)
    else state

/-- The loop of `__rmqueue_smallest` from `current_order` on. -/
def rmqueueLoop (order : Nat) : Nat → Nat → ZoneState → Option Nat × ZoneState
  | 0, _, state => (none, state)
  | turns + 1, currentOrder, state =>
    match (state.zone.freeArea currentOrder).freeList with
    | [] => rmqueueLoop order turns (currentOrder + 1) state
    | page :: _ =>
      (some page, expand page order currentOrder (delPageFromFreeList state page currentOrder))

/-- `__rmqueue_smallest`: the page, if any, and the new state. -/
def rmqueueSmallest (state : ZoneState) (order : Nat) : Option Nat × ZoneState :=
  rmqueueLoop order (maxOrder - order) order state

/-- `__rmqueue`. -/
def rmqueueOrPanic (state : ZoneState) (order : Nat) : Kernel (Nat × ZoneState) :=
  match rmqueueSmallest state order with
  | (some page, state) => .ok (page, state)
  | (none, _) => .error (.panic s!"bad __rmqueue_smallest! order({order})")

/-- `rmqueue_bulk`: the list with the new pages at its end, and the new state. `__rmqueue` never
returns `NULL`, so all `count` pages are added. -/
def rmqueueBulk (order : Nat) : Nat → List Nat → ZoneState → Kernel (List Nat × ZoneState)
  | 0, list, state => .ok (list, state)
  | count + 1, list, state =>
    match rmqueueOrPanic state order with
    | .error fault => .error fault
    | .ok (page, state) => rmqueueBulk order count (list ++ [page]) state

end Xlinux
