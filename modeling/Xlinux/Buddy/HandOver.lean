/-
This file follows the pages through the boot hand-over, from any memory map that
has no free block yet. Every block on a free list is made of pages that were
handed over, and a page is marked reserved if and only if it was marked before or
a reserved region marks it, and it was not handed over.

`__next_reserved_mem_region` hands out the last byte of a region, and
`reserve_bootmem_region` rounds that byte up to a page. So a region whose last
byte is the first byte of a page does not mark that page, and a region that ends
in the last page of the address space marks none.
-/

import Xlinux.Buddy.RoundTrip

namespace Xlinux

open Blocks Spans List Function UInt64

/-! ### Free blocks inside a set of pages -/

/-- The blocks on the free lists are aligned and inside the given pages, and so is every block
that a descriptor is tagged as. -/
structure ZoneState.Inside (pages : Set Nat) (state : ZoneState) : Prop where
  aligned : ∀ order, ∀ pfn ∈ state.zone.list order, 2 ^ order ∣ pfn
  listed : ∀ order, ∀ pfn ∈ state.zone.list order, ∀ page ∈ block order pfn, page ∈ pages
  tagged : ∀ pfn, (state.memMap pfn).isBuddy = true →
    ∀ page ∈ block (state.memMap pfn).order pfn, page ∈ pages

section Inside

variable {pages : Set Nat} {state after : ZoneState} {pfn order : Nat}

theorem ZoneState.Inside.del (inside : state.Inside pages) (pfn order : Nat) :
    (delPageFromFreeList state pfn order).Inside pages := by
  have listed : ∀ {other page}, page ∈ (delPageFromFreeList state pfn order).zone.list other →
      page ∈ state.zone.list other := by
    intro other page member
    rw [list_delPageFromFreeList] at member
    exact mem_of_mem_erase member
  refine ⟨fun other page member => inside.aligned other page (listed member),
    fun other page member => inside.listed other page (listed member), fun page tag => ?_⟩
  rw [memMap_delPageFromFreeList] at tag ⊢
  by_cases same : page = pfn
  · rw [same, MemMap.modify_self, isBuddy_cleared] at tag
    cases tag
  · rw [MemMap.modify_of_ne _ _ same] at tag ⊢
    exact inside.tagged page tag

theorem ZoneState.Inside.put (inside : state.Inside pages) (bound : order < maxOrder)
    (fit : 2 ^ order ∣ pfn) (within : ∀ page ∈ block order pfn, page ∈ pages)
    (puts : Puts pfn order state after) : after.Inside pages := by
  have listed : ∀ {other page}, page ∈ after.zone.list other →
      other = order ∧ page = pfn ∨ page ∈ state.zone.list other := by
    intro other page member
    by_cases same : other = order
    · subst same
      exact (mem_cons.mp (puts.list.mem_iff.mp member)).imp_left fun here => ⟨rfl, here⟩
    · exact .inr (puts.others other same ▸ member)
  refine ⟨fun other page member => ?_, fun other page member => ?_, fun page tag => ?_⟩
  · rcases listed member with ⟨rfl, rfl⟩ | old
    · exact fit
    · exact inside.aligned other page old
  · rcases listed member with ⟨rfl, rfl⟩ | old
    · exact within
    · exact inside.listed other page old
  · rw [puts.memMap] at tag ⊢
    by_cases same : page = pfn
    · rw [same, MemMap.modify_self, order_setOrder _ bound]
      exact within
    · rw [MemMap.modify_of_ne _ _ same] at tag ⊢
      exact inside.tagged page tag

/-- The block that `__free_one_page` carries is aligned and inside the pages. -/
structure CarriesInside (pages : Set Nat) (merge : Merge) : Prop where
  inside : merge.state.Inside pages
  bound : merge.order < maxOrder
  fit : 2 ^ merge.order ∣ merge.pfn
  within : ∀ page ∈ block merge.order merge.pfn, page ∈ pages

/-- A buddy is tagged, so its block is inside the pages as well. -/
theorem CarriesInside.mergeLoop (turns : Nat) {merge : Merge}
    (carries : CarriesInside pages merge) : CarriesInside pages (mergeLoop turns merge) := by
  refine mergeLoop_invariant (motive := CarriesInside pages)
    (fun merge _ below same test carries => ?_)
    (fun _ _ carries => ⟨carries.inside, carries.bound, carries.fit, carries.within⟩) turns
      merge carries
  subst same
  obtain ⟨tag, sameOrder, _⟩ := pageIsBuddy_iff.mp test
  have buddyWithin := carries.inside.tagged _ tag
  rw [sameOrder] at buddyWithin
  refine ⟨carries.inside.del _ _, Nat.lt_pred_iff.mp below, two_pow_succ_dvd_and carries.fit,
    fun page member => ?_⟩
  rw [← block_add_buddy carries.fit, Multiset.mem_add] at member
  exact member.elim (carries.within page) (buddyWithin page)

theorem ZoneState.Inside.freeOnePage (inside : state.Inside pages) (bound : order < maxOrder)
    (fit : 2 ^ order ∣ pfn) (within : ∀ page ∈ block order pfn, page ∈ pages) :
    (freeOnePage state pfn order).Inside pages := by
  have carries : CarriesInside pages (mergeLoop (maxOrder - order) ⟨state, pfn, order, 0⟩) :=
    CarriesInside.mergeLoop _ ⟨inside, bound, fit, within⟩
  exact carries.inside.put carries.bound carries.fit carries.within
    (puts_freeOnePage state pfn order)

end Inside

/-! ### The allocator -/

/-- The free blocks of all zones are inside the given pages. -/
def PageAllocator.Inside (pages : Set Nat) (allocator : PageAllocator) : Prop :=
  ∀ zoneType, ZoneState.Inside pages ⟨allocator.memMap, allocator.nodeZones zoneType⟩

section Allocator

variable {pages : Set Nat} {allocator after : PageAllocator} {page order zoneType : Nat}

section

theorem list_addManagedPages (allocator : PageAllocator) (zoneType count other order : Nat) :
    ((addManagedPages allocator zoneType count).nodeZones other).list order =
      (allocator.nodeZones other).list order := by
  show (update allocator.nodeZones zoneType _ other).list order = _
  by_cases same : other = zoneType
  · rw [same, update_self]
    rfl
  · rw [update_of_ne same]

variable (inside : allocator.Inside pages)

include inside

/-- A change of the descriptors that keeps tags and orders. -/
theorem PageAllocator.Inside.modifyPage (page : Nat)
    {change : Page → Page} (tags : ∀ page, (change page).isBuddy = page.isBuddy)
    (orders : ∀ page, (change page).order = page.order) :
    (allocator.modifyPage page change).Inside pages := by
  intro zoneType
  refine ⟨(inside zoneType).aligned, (inside zoneType).listed, fun pfn tag => ?_⟩
  have sameTag : SameView Page.isBuddy allocator.memMap (allocator.memMap.modify page change) :=
    sameView_modify _ _ tags
  have sameOrder : SameView Page.order allocator.memMap (allocator.memMap.modify page change) :=
    sameView_modify _ _ orders
  have old := (inside zoneType).tagged pfn ((sameTag pfn).symm.trans tag)
  exact (sameOrder pfn).symm ▸ old

theorem PageAllocator.Inside.foldl {Item : Type} {change : PageAllocator → Item → PageAllocator}
    (kept : ∀ (allocator : PageAllocator) item, allocator.Inside pages →
      (change allocator item).Inside pages) (items : List Item) :
    (items.foldl change allocator).Inside pages := by
  induction items generalizing allocator with
  | nil => exact inside
  | cons item rest ih => exact ih (kept allocator item inside)

/-- A zone's state put back: the other zones see only the new descriptors. -/
theorem PageAllocator.Inside.withZone {state : ZoneState}
    (new : state.Inside pages) : (allocator.withZone zoneType state).Inside pages := by
  intro other
  show ZoneState.Inside pages ⟨state.memMap, update allocator.nodeZones zoneType state.zone other⟩
  by_cases same : other = zoneType
  · rw [same, update_self]
    exact new
  · rw [update_of_ne same]
    exact ⟨(inside other).aligned, (inside other).listed, new.tagged⟩

theorem PageAllocator.Inside.reserveBootmemRegion
    (range : MemRange) : (reserveBootmemRegion allocator range).Inside pages := by
  refine PageAllocator.Inside.foldl inside (fun allocator pfn before => ?_) _
  rw [reserveBootmemPage]
  split
  · exact before.modifyPage pfn (fun _ => rfl) fun _ => rfl
  · exact before

/-- The allocator as `__free_pages_core` has it when it frees the block: the pages are unreserved
and counted, and the reference to the first page is dropped again. -/
def handedPages (allocator : PageAllocator) (page order : Nat) : PageAllocator :=
  let unreserved := unreservePages allocator page (1 <<< order)
  (addManagedPages unreserved (unreserved.memMap page).zoneId (1 <<< order)).modifyPage page
    fun page => page.setRefcounted.putPage

omit inside in
theorem freePagesCore_ok (returns : freePagesCore allocator page order = .ok after) :
    ∃ zoneType, zoneType = ((handedPages allocator page order).memMap page).zoneId ∧
      after = (handedPages allocator page order).withZone zoneType
        (freeOnePage ⟨(handedPages allocator page order).memMap,
          (handedPages allocator page order).nodeZones zoneType⟩ page order) := by
  rw [freePagesCore] at returns
  simp only [freePages_setRefcounted] at returns
  obtain ⟨_, found, rest⟩ := Kernel.bind_ok.mp returns
  cases rest
  exact ⟨_, rfl, by rw [zoneState_ok found]; rfl⟩

theorem PageAllocator.Inside.unreservePages (page count : Nat) :
    (unreservePages allocator page count).Inside pages := by
  refine PageAllocator.Inside.foldl inside (fun allocator pfn before => ?_) _
  exact before.modifyPage pfn (fun _ => rfl) fun _ => rfl

theorem PageAllocator.Inside.addManagedPages
    (zoneType count : Nat) : (addManagedPages allocator zoneType count).Inside pages := by
  intro other
  have same := list_addManagedPages allocator zoneType count other
  refine ⟨fun order pfn member => ?_, fun order pfn member => ?_, (inside other).tagged⟩
  · exact (inside other).aligned order pfn (same order ▸ member)
  · exact (inside other).listed order pfn (same order ▸ member)

theorem PageAllocator.Inside.freePagesCore (bound : order < maxOrder) (fit : 2 ^ order ∣ page)
    (within : ∀ pfn ∈ block order page, pfn ∈ pages)
    (returns : freePagesCore allocator page order = .ok after) : after.Inside pages := by
  obtain ⟨zoneType, _, rfl⟩ := freePagesCore_ok returns
  have handed : (handedPages allocator page order).Inside pages :=
    ((inside.unreservePages _ _).addManagedPages _ _).modifyPage page (fun _ => rfl) fun _ => rfl
  exact handed.withZone ((handed zoneType).freeOnePage bound fit within)

end

/-! ### The reserved mark -/

/-- `PageReserved`. -/
def Page.isReserved (page : Page) : Bool := page.flags &&& pgReserved ≠ 0

theorem isReserved_unreserve (page : Page) : page.unreserve.isReserved = false := by
  have cleared : (page.flags &&& ~~~pgReserved) &&& pgReserved = 0 := by
    refine UInt64.eq_of_toBitVec_eq (BitVec.eq_of_getLsbD_eq fun bit _ => ?_)
    cases mask : pgReserved.toBitVec.getLsbD bit <;> simp [mask]
  exact decide_eq_false (not_not.mpr cleared)

theorem isReserved_setReserved (page : Page) : page.setReserved.isReserved = true := by
  have set : (page.flags ||| pgReserved) &&& pgReserved = pgReserved := by
    refine UInt64.eq_of_toBitVec_eq (BitVec.eq_of_getLsbD_eq fun bit _ => ?_)
    cases mask : pgReserved.toBitVec.getLsbD bit <;> simp [mask]
  have nonzero : (page.flags ||| pgReserved) &&& pgReserved ≠ 0 := by
    rw [set]
    decide
  exact decide_eq_true nonzero

theorem memMap_foldl_modifyPage {change : Page → Page} {pfns : List Nat} (distinct : pfns.Nodup)
    (allocator : PageAllocator) (pfn : Nat) :
    (pfns.foldl (fun allocator pfn => allocator.modifyPage pfn change) allocator).memMap pfn =
      if pfn ∈ pfns then change (allocator.memMap pfn) else allocator.memMap pfn := by
  induction pfns generalizing allocator with
  | nil => rfl
  | cons first rest ih =>
    obtain ⟨fresh, distinctRest⟩ := nodup_cons.mp distinct
    rw [foldl_cons, ih distinctRest, memMap_modifyPage]
    by_cases same : pfn = first
    · subst same
      rw [if_neg fresh, MemMap.modify_self, if_pos mem_cons_self]
    · rw [MemMap.modify_of_ne _ _ same]
      simp only [mem_cons, or_iff_right same]

theorem isReserved_unreservePages (allocator : PageAllocator) (page count pfn : Nat) :
    ((unreservePages allocator page count).memMap pfn).isReserved = true ↔
      (allocator.memMap pfn).isReserved = true ∧ ¬ (page ≤ pfn ∧ pfn < page + count) := by
  rw [unreservePages, memMap_foldl_modifyPage nodup_range', ← mem_range'_1]
  split
  · rename_i member
    rw [isReserved_unreserve]
    exact ⟨nofun, fun before => absurd member before.2⟩
  · rename_i member
    exact (and_iff_left member).symm

theorem isReserved_freePagesCore (returns : freePagesCore allocator page order = .ok after)
    (pfn : Nat) : (after.memMap pfn).isReserved = true ↔
      (allocator.memMap pfn).isReserved = true ∧ pfn ∉ block order page := by
  obtain ⟨zoneType, _, rfl⟩ := freePagesCore_ok returns
  have frees : SameView Page.isReserved (handedPages allocator page order).memMap
      (freeOnePage ⟨(handedPages allocator page order).memMap,
        (handedPages allocator page order).nodeZones zoneType⟩ page order).memMap :=
    sameView_freeOnePage (fun _ _ => rfl) (fun _ => rfl) _ page order
  have refers : SameView Page.isReserved (unreservePages allocator page (1 <<< order)).memMap
      (handedPages allocator page order).memMap := by
    show SameView _ _ (MemMap.modify _ page fun page => page.setRefcounted.putPage)
    exact sameView_modify _ _ fun _ => rfl
  show ((freeOnePage _ page order).memMap pfn).isReserved = true ↔ _
  rw [frees pfn, refers pfn, isReserved_unreservePages, mem_block, Nat.one_shiftLeft]

theorem pfnValid_foldl {Item : Type} {change : PageAllocator → Item → PageAllocator}
    (kept : ∀ allocator item, (change allocator item).pfnValid = allocator.pfnValid)
    (items : List Item) : (items.foldl change allocator).pfnValid = allocator.pfnValid := by
  induction items generalizing allocator with
  | nil => rfl
  | cons item rest ih => exact ih.trans (kept allocator item)

theorem pfnValid_reserveBootmemPage (allocator : PageAllocator) (pfn : Nat) :
    (reserveBootmemPage allocator pfn).pfnValid = allocator.pfnValid := by
  rw [reserveBootmemPage]
  split <;> rfl

theorem isReserved_reservePages (pfns : List Nat) (allocator : PageAllocator) (pfn : Nat) :
    ((pfns.foldl reserveBootmemPage allocator).memMap pfn).isReserved = true ↔
      (allocator.memMap pfn).isReserved = true ∨
        pfn ∈ pfns ∧ allocator.pfnValid (UInt64.ofNat pfn) = true := by
  induction pfns generalizing allocator with
  | nil => simp
  | cons first rest ih =>
    rw [foldl_cons, ih, pfnValid_reserveBootmemPage, mem_cons, reserveBootmemPage]
    split_ifs with here
    · rw [memMap_modifyPage]
      by_cases same : pfn = first
      · rw [same, MemMap.modify_self, isReserved_setReserved]
        simp [here]
      · rw [MemMap.modify_of_ne _ _ same, or_iff_right same]
    · by_cases same : pfn = first
      · simp [same, here]
      · rw [or_iff_right same]

/-- The pages that `reserve_bootmem_region` goes through for a region. -/
def MemblockRegion.marks (region : MemblockRegion) : List Nat :=
  let range := reservedRange region
  List.range' (pfnDown range.start).toNat ((pfnUp range.stop).toNat - (pfnDown range.start).toNat)

theorem pfnValid_reserveBootmemRegion (allocator : PageAllocator) (range : MemRange) :
    (reserveBootmemRegion allocator range).pfnValid = allocator.pfnValid :=
  pfnValid_foldl pfnValid_reserveBootmemPage _

/-- The loop over the reserved regions marks the valid pages that some region marks. -/
theorem isReserved_reserveRegions (regions : List MemblockRegion) (allocator : PageAllocator)
    (pfn : Nat) :
    (((regions.map reservedRange).foldl reserveBootmemRegion allocator).memMap pfn).isReserved =
        true ↔
      (allocator.memMap pfn).isReserved = true ∨ (∃ region ∈ regions, pfn ∈ region.marks) ∧
          allocator.pfnValid (UInt64.ofNat pfn) = true := by
  induction regions generalizing allocator with
  | nil => simp
  | cons region rest ih =>
    rw [map_cons, foldl_cons, ih, pfnValid_reserveBootmemRegion,
      exists_mem_cons_iff, or_and_right, ← or_assoc]
    exact or_congr_left (isReserved_reservePages region.marks allocator pfn)

theorem isReserved_freeBlocks {blocks : List PageBlock}
    (frees : blocks.foldlM (fun allocator block =>
      freePagesCore allocator block.pfn.toNat block.order) allocator = .ok after) (pfn : Nat) :
    (after.memMap pfn).isReserved = true ↔
      (allocator.memMap pfn).isReserved = true ∧ pfn ∉ blocks.flatMap PageBlock.pages := by
  induction blocks generalizing allocator with
  | nil =>
    cases frees
    simp
  | cons handed rest ih =>
    obtain ⟨_, first, frees⟩ := Kernel.bind_ok.mp frees
    rw [ih frees, isReserved_freePagesCore first, flatMap_cons, mem_append, not_or, and_assoc]
    rfl

/-- The pages that the boot hand-over frees. -/
def Memblock.handed (memblock : Memblock) (maxLowPfn : UInt64) : List Nat :=
  (memblock.handedBlocks maxLowPfn).flatMap PageBlock.pages

theorem handedBlocks_shape {memblock : Memblock} {maxLowPfn : UInt64} {handed : PageBlock}
    (member : handed ∈ memblock.handedBlocks maxLowPfn) :
    handed.order < maxOrder ∧ 2 ^ handed.order ∣ handed.pfn.toNat := by
  obtain ⟨_, _, inRange⟩ := mem_flatMap.mp member
  exact mem_blocksFrom inRange

theorem PageAllocator.Inside.freeBlocks {blocks : List PageBlock}
    (shape : ∀ handed ∈ blocks, handed.order < maxOrder ∧ 2 ^ handed.order ∣ handed.pfn.toNat ∧
      ∀ pfn ∈ handed.pages, pfn ∈ pages)
    (inside : allocator.Inside pages)
    (frees : blocks.foldlM (fun allocator block =>
      Xlinux.freePagesCore allocator block.pfn.toNat block.order) allocator = .ok after) :
    after.Inside pages := by
  induction blocks generalizing allocator with
  | nil =>
    cases frees
    exact inside
  | cons handed rest ih =>
    obtain ⟨_, first, frees⟩ := Kernel.bind_ok.mp frees
    obtain ⟨bound, fit, within⟩ := shape handed mem_cons_self
    exact ih (forall_mem_cons.mp shape).2
      (inside.freePagesCore bound fit within first) frees

theorem pfnValid_freePagesCore (returns : freePagesCore allocator page order = .ok after) :
    after.pfnValid = allocator.pfnValid := by
  obtain ⟨_, _, rfl⟩ := freePagesCore_ok returns
  refine pfnValid_foldl (fun allocator pfn => ?_) _
  rfl

variable {memblock final : Memblock} {maxLowPfn count : UInt64} (arranged : memblock.Arranged)
  (returns : memblockFreeAll buddyHooks memblock maxLowPfn allocator = .ok (count, final, after))

include arranged returns

/-- Every free block is made of pages that were handed over. -/
theorem PageAllocator.Inside.memblockFreeAll
    (inside : allocator.Inside {pfn | pfn ∈ memblock.handed maxLowPfn}) :
    after.Inside {pfn | pfn ∈ memblock.handed maxLowPfn} := by
  refine PageAllocator.Inside.freeBlocks (fun handed member => ?_) ?_
    (memblockFreeAll_ok arranged returns).1
  · obtain ⟨bound, fit⟩ := handedBlocks_shape member
    exact ⟨bound, fit, fun pfn page => mem_flatMap.mpr ⟨handed, member, page⟩⟩
  · exact PageAllocator.Inside.foldl inside
      (fun _ range before => before.reserveBootmemRegion range) _

/-- A page is marked after the hand-over if it was marked before or a reserved region marks it,
and it was not handed over. -/
theorem isReserved_memblockFreeAll (pfn : Nat) :
    (after.memMap pfn).isReserved = true ↔ ((allocator.memMap pfn).isReserved = true ∨
        (∃ region ∈ memblock.reserved.regions, pfn ∈ region.marks) ∧
          allocator.pfnValid (UInt64.ofNat pfn) = true) ∧ pfn ∉ memblock.handed maxLowPfn := by
  rw [isReserved_freeBlocks (memblockFreeAll_ok arranged returns).1, isReserved_reserveRegions]
  rfl

theorem pfnValid_memblockFreeAll : after.pfnValid = allocator.pfnValid := by
  have frees := (memblockFreeAll_ok arranged returns).1
  rw [← Run.run_eq_foldlM] at frees
  have kept := Run.run_invariant (fun before _ next same stepped =>
    (pfnValid_freePagesCore stepped).trans same) rfl frees
  exact kept.trans (pfnValid_foldl pfnValid_reserveBootmemRegion _)

end Allocator

/-! ### Reserved pages after the boot -/

/-- Before the boot hand-over: no block is on a free list, and no page is tagged as one. -/
structure PageAllocator.Unused (allocator : PageAllocator) : Prop where
  lists : ∀ zoneType order, (allocator.nodeZones zoneType).list order = []
  tags : ∀ pfn, (allocator.memMap pfn).isBuddy = false

theorem PageAllocator.Unused.inside {allocator : PageAllocator} (unused : allocator.Unused)
    (pages : Set Nat) : allocator.Inside pages := by
  intro zoneType
  refine ⟨fun order pfn member => ?_, fun order pfn member => ?_, fun pfn tag => ?_⟩
  · rw [unused.lists zoneType order] at member
    cases member
  · rw [unused.lists zoneType order] at member
    cases member
  · rw [unused.tags pfn] at tag
    cases tag

/-- The page shares a byte with a region of the array. -/
def MemblockType.Touches (type : MemblockType) (pfn : Nat) : Prop :=
  ∃ address ∈ pageBytes pfn, address ∈ type.covered

/-- Every page that shares a byte with a reserved region is marked reserved and is on no free
list. -/
def ReservedKept (reserved : MemblockType) (allocator : PageAllocator) : Prop :=
  ∀ pfn, allocator.pfnValid (UInt64.ofNat pfn) = true → reserved.Touches pfn →
    (allocator.memMap pfn).isReserved = true ∧
      ∀ zoneType order, ∀ head ∈ (allocator.nodeZones zoneType).list order, pfn ∉ block order head

/-- A region that ends at or below the first byte of the last page has a byte of the page other
than its first. -/
def MemblockType.MarksPage (type : MemblockType) (pfn : Nat) : Prop :=
  ∃ region ∈ type.regions, region.span.hi ≤ 2 ^ 64 - 4095 ∧
    ∃ address ∈ region.span.points, pfn * 4096 < address ∧ address < (pfn + 1) * 4096

/-- A free range starts in the last page after its first byte, and the page is below
`max_low_pfn` and not the last one. -/
def Memblock.WrapsOnto (memblock : Memblock) (maxLowPfn : UInt64) (pfn : Nat) : Prop :=
  pfn < 2 ^ 52 - 1 ∧ pfn < maxLowPfn.toNat ∧
    ∃ span, IsMaximal memblock.free span ∧ 2 ^ 64 - 4096 < span.lo

theorem mem_marks_iff {region : MemblockRegion} (fit : region.span.hi ≤ physAddrMax.toNat)
    (filled : region.span.lo < region.span.hi ∨ region.span.hi = 0) (pfn : Nat) :
    pfn ∈ region.marks ↔ region.span.hi ≤ 2 ^ 64 - 4095 ∧
      ∃ address ∈ region.span.points, pfn * 4096 < address ∧ address < (pfn + 1) * 4096 := by
  have limit := toNat_end fit
  have start : region.span.lo = region.base.toNat := rfl
  simp only [MemblockRegion.marks, reservedRange, mem_range'_1, toNat_pfnDown, toNat_pfnUp,
    Span.mem_points]
  rcases filled with filled | empty
  · have last : (region.base + region.size - 1).toNat = region.span.hi - 1 := by
      rw [toNat_sub_of_toNat_le, limit]
      · rfl
      · exact Nat.one_le_iff_ne_zero.mpr (by omega)
    rw [last]
    split_ifs with low
    · constructor
      · rintro ⟨above, below⟩
        exact ⟨by omega, max region.span.lo (pfn * 4096 + 1), by omega, by omega, by omega⟩
      · rintro ⟨_, address, ⟨above, below⟩, _, before⟩
        omega
    · omega
  · -- the dummy entry: its last byte is before the first one, which wraps
    have zero : region.base + region.size = 0 := UInt64.toNat_inj.mp (limit.trans empty)
    rw [zero, if_neg (by decide)]
    constructor
    · intro marked
      omega
    · rintro ⟨_, address, ⟨_, below⟩, _⟩
      omega

section Boot

variable {memblock final : Memblock} (arranged : memblock.Arranged) {maxLowPfn count : UInt64}

include arranged

theorem marksPage_iff (pfn : Nat) : memblock.reserved.MarksPage pfn ↔
    ∃ region ∈ memblock.reserved.regions, pfn ∈ region.marks := by
  refine exists_congr fun region => and_congr_right fun member => (mem_marks_iff ?_ ?_ pfn).symm
  · exact arranged.reserved.fit region member
  · exact arranged.reserved.ordered.2.1 _ (mem_map_of_mem member)

/-- A page with a reserved byte is handed over only by a range whose start wraps. -/
theorem mem_handed_iff_wrapsOnto {pfn : Nat} (touches : memblock.reserved.Touches pfn) :
    pfn ∈ memblock.handed maxLowPfn ↔ memblock.WrapsOnto maxLowPfn pfn := by
  rw [Memblock.handed, Memblock.flatMap_pages_handedBlocks, mem_flatMap]
  constructor
  · rintro ⟨range, member, page⟩
    have maximal : IsMaximal memblock.free range.span :=
      (arranged.isMaximal_iff _).mpr ⟨range, member, rfl⟩
    have high : 2 ^ 64 - 4096 < range.start.toNat := by
      by_contra low
      obtain ⟨_, inside⟩ := (mem_rangePages (.inr (not_lt.mp low)) pfn).mp page
      obtain ⟨_, inPage, reserved⟩ := touches
      exact (maximal.subset (inside inPage)).2 reserved
    have bound := (mem_rangePages_iff _ _ _).mp page
    have top := toNat_lt range.stop
    rw [toNat_endPfn] at bound
    exact ⟨by omega, by omega, range.span, maximal, high⟩
  · rintro ⟨_, low, span, maximal, high⟩
    obtain ⟨range, member, rfl⟩ := (arranged.isMaximal_iff span).mp maximal
    refine ⟨range, member, (mem_rangePages_iff _ _ _).mpr ?_⟩
    have filled : range.start.toNat < range.stop.toNat := maximal.filled
    have wraps : 2 ^ 64 - 4096 < range.start.toNat := high
    rw [toNat_endPfn, startPfn, toNat_pfnUp, if_neg (not_le.mpr wraps)]
    omega

/-- After the boot hand-over every page with a reserved byte is marked and on no free list, if and
only if each such page was marked before or has a reserved byte other than its first, in a region
that does not reach into the last page, and no free range starts there. -/
theorem memblockFreeAll_reservedKept_iff {start booted : PageAllocator} (unused : start.Unused)
    (returns : memblockFreeAll buddyHooks memblock maxLowPfn start = .ok (count, final, booted)) :
    ReservedKept memblock.reserved booted ↔
      ∀ pfn, start.pfnValid (UInt64.ofNat pfn) = true → memblock.reserved.Touches pfn →
        ((start.memMap pfn).isReserved = true ∨ memblock.reserved.MarksPage pfn) ∧
          ¬ memblock.WrapsOnto maxLowPfn pfn := by
  have inside := (unused.inside _).memblockFreeAll arranged returns
  have valid := pfnValid_memblockFreeAll arranged returns
  refine forall_congr' fun pfn => ?_
  rw [valid]
  refine forall_congr' fun isValid => forall_congr' fun touches => ?_
  rw [isReserved_memblockFreeAll arranged returns, ← marksPage_iff arranged,
    mem_handed_iff_wrapsOnto arranged touches, and_iff_left isValid]
  refine and_iff_left_of_imp fun marked zoneType order head member inBlock => ?_
  exact marked.2 ((mem_handed_iff_wrapsOnto arranged touches).mp
    ((inside zoneType).listed order head member pfn inBlock))

end Boot

/-- Two reserved bytes on both sides of a page boundary: the page after the boundary has one
reserved byte, its first, and is not marked. -/
theorem memblockFreeAll_reserved_first_byte :
    ∃ memblock final count booted,
      Run.run memblockCall initialMemblock [.add 0x1000 0x5000, .reserve 0x1fff 2] = .ok memblock ∧
      memblockFreeAll buddyHooks memblock 8
        (PageAllocator.initial 0 8 0xffffffe000000000
          (fun zoneType => if zoneType = 0 then 5 else 0)
          fun zoneType => zoneType = 0) = .ok (count, final, booted) ∧
      booted.pfnValid (UInt64.ofNat 2) = true ∧ memblock.reserved.Touches 2 ∧
      (booted.memMap 2).isReserved = false ∧ ¬ ReservedKept memblock.reserved booted := by
  have touches : ∀ reserved : MemblockType, reserved.regions = [⟨0x1fff, 2⟩] →
      reserved.Touches 2 := by
    intro reserved regions
    refine ⟨0x2000, ⟨by decide, by decide⟩, ⟨0x1fff, 0x2001⟩, ?_, by decide, by decide⟩
    rw [regions]
    exact mem_singleton_self _
  refine ⟨_, _, _, _, rfl, rfl, by decide, touches _ rfl, by decide, fun kept => ?_⟩
  exact absurd (kept 2 (by decide) (touches _ rfl)).1 (by decide)

/-- A reserved region that ends at a page boundary. -/
theorem memblockFreeAll_reservedKept_iff_aligned :
    ∃ memblock final count booted,
      Run.run memblockCall initialMemblock [.add 0x1000 0x5000, .reserve 0x1800 0x800] =
        .ok memblock ∧
      memblockFreeAll buddyHooks memblock 8
        (PageAllocator.initial 0 8 0xffffffe000000000
          (fun zoneType => if zoneType = 0 then 5 else 0)
          fun zoneType => zoneType = 0) = .ok (count, final, booted) ∧
      ReservedKept memblock.reserved booted := by
  refine ⟨_, _, _, _, rfl, rfl, (memblockFreeAll_reservedKept_iff
    (@normalised_of_run _ [.add 0x1000 0x5000, .reserve 0x1800 0x800] rfl).arranged
    ⟨fun _ _ => rfl, fun _ => (by decide : zeroPage.isBuddy = false)⟩
    (show memblockFreeAll buddyHooks _ 8 (PageAllocator.initial 0 8 0xffffffe000000000
      (fun zoneType => if zoneType = 0 then 5 else 0) fun zoneType => zoneType = 0) =
        _ from rfl)).mpr ?_⟩
  rintro pfn _ ⟨address, ⟨above, below⟩, span, member, low, high⟩
  obtain rfl : span = ⟨0x1800, 0x2000⟩ := mem_singleton.mp member
  rw [toNat_pageSize] at above below
  dsimp only at low high
  have page : pfn = 1 := by omega
  subst page
  refine ⟨.inr ⟨⟨0x1800, 0x800⟩, mem_singleton_self _, by decide,
    0x1801, ⟨by decide, by decide⟩, by decide, by decide⟩, ?_⟩
  rintro ⟨_, _, span, maximal, _⟩
  obtain ⟨⟨last, inMemory, _, below⟩, _⟩ := maximal.subset ⟨le_rfl, maximal.filled⟩
  obtain rfl : last = ⟨0x1000, 0x6000⟩ := mem_singleton.mp inMemory
  dsimp only at below
  omega

end Xlinux
