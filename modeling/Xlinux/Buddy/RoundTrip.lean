/-
This file studies an allocation followed by the matching free. The boot hand-over
leaves every page with a reference count of zero, and no allocation raises it.
So the decrement of `__free_pages` never reaches zero again, and each pair of
calls takes the pages of its block out of the allocator for good.
-/

import Xlinux.Buddy.Conservation
import Xlinux.Buddy.PageAlloc

namespace Xlinux

open Blocks List Function Kernel

variable {pfn : Nat} {state : ZoneState}

/-! ### Reference counts and free pages of a zone -/

/-- No reference count has changed. -/
def SameRefcounts (before after : MemMap) : Prop :=
  ∀ pfn, (after pfn).refcount = (before pfn).refcount

theorem SameRefcounts.trans {first second third : MemMap} (before : SameRefcounts first second)
    (after : SameRefcounts second third) : SameRefcounts first third :=
  SameView.trans before after

theorem Puts.freeCount {order : Nat} {before after : ZoneState} (puts : Puts pfn order before after)
    (bound : order < maxOrder) : after.zone.freeCount = before.zone.freeCount + 2 ^ order := by
  rw [Zone.freeCount_eq_card, Zone.freeCount_eq_card, puts.freePages bound, Multiset.card_add,
    card_block, add_comm]

theorem freeCount_del {order : Nat} (bound : order < maxOrder)
    (member : pfn ∈ state.zone.list order) :
    (delPageFromFreeList state pfn order).zone.freeCount + 2 ^ order ≤ state.zone.freeCount := by
  have fewer : (delPageFromFreeList state pfn order).zone.freePages ≤
      total maxOrder (update state.zone.list order ((state.zone.list order).erase pfn)) := by
    refine Finset.sum_le_sum fun other _ => listed_mono ?_
    rw [list_delPageFromFreeList]
    by_cases same : other = order
    · rw [same, update_self]
    · rw [update_of_ne same]
      exact erase_sublist
  have count := Multiset.card_le_card fewer
  rw [Zone.freeCount_eq_card, Zone.freeCount_eq_card, Zone.freePages, Zone.freePages,
    total_eq_block_add bound member, Multiset.card_add, card_block]
  rw [Zone.freePages] at count
  omega

/-- At least `count` pages have left the free lists of a zone, and no reference count has
changed. -/
structure Takes (count : Nat) (before after : ZoneState) : Prop where
  refcounts : SameRefcounts before.memMap after.memMap
  freeCount : after.zone.freeCount + count ≤ before.zone.freeCount

theorem expand_spec (page : Nat) {low high : Nat} (split : low ≤ high) (bound : high < maxOrder)
    (state : ZoneState) :
    SameRefcounts state.memMap (expand page low high state).memMap ∧
      (expand page low high state).zone.freeCount + 2 ^ low = state.zone.freeCount + 2 ^ high := by
  have kept := expand_invariant (motive := fun after outside =>
      SameRefcounts state.memMap after.memMap ∧
        after.zone.freeCount + outside.card = state.zone.freeCount + 2 ^ high)
    (fun order after less kept => ?_) split (show _ ∧ _ + (block high page + 0).card = _ from
      ⟨fun _ => rfl, by simp⟩)
  · simpa using kept
  · have puts := puts_addToFreeList after (page + 2 ^ order) order
    refine ⟨kept.1.trans (puts.memMap ▸ sameView_modify _ _ fun _ => rfl), ?_⟩
    have count := kept.2
    simp only [add_zero, card_block] at count ⊢
    rw [puts.freeCount (less.trans bound)]
    omega

theorem takes_rmqueueSmallest {after : ZoneState} {order page : Nat}
    (taken : rmqueueSmallest state order = (some page, after)) : Takes (2 ^ order) state after := by
  obtain ⟨found, low, bound, member, rfl⟩ := rmqueueSmallest_some taken
  have expanded := expand_spec page low bound (delPageFromFreeList state page found)
  have removed := freeCount_del bound member
  exact ⟨(memMap_delPageFromFreeList .. ▸ sameView_modify _ _ fun _ => rfl :
    SameRefcounts _ _).trans expanded.1, by omega⟩

theorem takes_rmqueueBulk {after : ZoneState} {order count : Nat} {list final : List Nat}
    (returns : rmqueueBulk order count list state = .ok (final, after)) :
    final.length = list.length + count ∧ Takes (count * 2 ^ order) state after := by
  induction count generalizing list state with
  | zero =>
    cases returns
    exact ⟨rfl, fun _ => rfl, by simp⟩
  | succ count ih =>
    rw [rmqueueBulk] at returns
    cases taken : rmqueueOrPanic state order with
    | error fault => simp [taken] at returns
    | ok result =>
      rw [taken] at returns
      obtain ⟨refcounts, freeCount⟩ := takes_rmqueueSmallest (rmqueueOrPanic_ok taken)
      obtain ⟨length, rest⟩ := ih returns
      rw [length_append, length_singleton] at length
      refine ⟨by omega, refcounts.trans rest.refcounts, ?_⟩
      have := rest.freeCount
      rw [add_mul, one_mul]
      omega

/-! ### Reference counts and free pages of the allocator -/

/-- The number of pages that can still be allocated: those on the free lists of the zones and
those on the per-cpu list. -/
def PageAllocator.allocatable (allocator : PageAllocator) : Nat :=
  ∑ zoneType ∈ Finset.range maxNrZones, (allocator.nodeZones zoneType).freeCount +
    allocator.pageset.lists.length

/-- No page is referenced, and the zonelist names zones of the node. -/
structure PageAllocator.Settled (allocator : PageAllocator) : Prop where
  refcounts : ∀ pfn, (allocator.memMap pfn).refcount ≤ 0
  zonerefs : ∀ zoneType ∈ allocator.zonerefs, zoneType < maxNrZones

/-- At least `count` pages have left the allocator; no reference count has changed. -/
structure Loses (count : Nat) (before after : PageAllocator) : Prop where
  refcounts : SameRefcounts before.memMap after.memMap
  zonerefs : after.zonerefs = before.zonerefs
  allocatable : after.allocatable + count ≤ before.allocatable

section Allocator

variable {allocator after : PageAllocator} {zoneType order page : Nat}
variable {addr : UInt64}

theorem Loses.settled {count : Nat} (loses : Loses count allocator after)
    (settled : allocator.Settled) : after.Settled := by
  refine ⟨fun pfn => ?_, ?_⟩
  · rw [loses.refcounts pfn]
    exact settled.refcounts pfn
  · rw [loses.zonerefs]
    exact settled.zonerefs

theorem zoneState_ok {state : ZoneState} (returns : allocator.zoneState zoneType = .ok state) :
    state = ⟨allocator.memMap, allocator.nodeZones zoneType⟩ := by
  rw [PageAllocator.zoneState] at returns
  split at returns
  · exact (Except.ok.inj returns).symm
  · cases returns

/-- Pages taken from one zone are taken from the allocator. -/
theorem allocatable_withZone {count : Nat} {state next : ZoneState} (inside : zoneType < maxNrZones)
    (returns : allocator.zoneState zoneType = .ok state) (takes : Takes count state next) :
    (allocator.withZone zoneType next).allocatable + count ≤ allocator.allocatable := by
  have here : zoneType ∈ Finset.range maxNrZones := mem_range.mpr inside
  have fewer : next.zone.freeCount + count ≤ (allocator.nodeZones zoneType).freeCount := by
    have fewer := takes.freeCount
    rwa [zoneState_ok returns] at fewer
  simp only [PageAllocator.allocatable, PageAllocator.withZone]
  rw [← Finset.add_sum_erase _ _ here, ← Finset.add_sum_erase _ _ here, update_self]
  have rest : ∑ other ∈ (Finset.range maxNrZones).erase zoneType,
      (update allocator.nodeZones zoneType next.zone other).freeCount =
      ∑ other ∈ (Finset.range maxNrZones).erase zoneType, (allocator.nodeZones other).freeCount :=
    Finset.sum_congr rfl fun other member => by
      rw [update_of_ne (Finset.ne_of_mem_erase member)]
  omega

theorem refillPcplist_loses (inside : zoneType < maxNrZones)
    (returns : refillPcplist allocator zoneType = .ok after) : Loses 0 allocator after := by
  obtain ⟨_, found, bulk⟩ := bind_ok.mp returns
  obtain ⟨⟨_, _⟩, filled, rest⟩ := bind_ok.mp bulk
  cases rest
  obtain ⟨_, takes⟩ := takes_rmqueueBulk filled
  have fewer := allocatable_withZone inside found takes
  have same := takes.refcounts
  rw [zoneState_ok found] at same
  refine ⟨same, rfl, ?_⟩
  simp only [PageAllocator.allocatable, PageAllocator.withZone] at fewer ⊢
  omega

theorem takePcplist_loses (taken : takePcplist allocator = (some page, after)) :
    Loses 1 allocator after := by
  rw [takePcplist] at taken
  cases listEq : allocator.pageset.lists with
  | nil => simp [listEq] at taken
  | cons first rest =>
    simp only [listEq] at taken
    obtain ⟨_, rfl⟩ := taken
    refine ⟨fun _ => rfl, rfl, ?_⟩
    simp only [PageAllocator.allocatable, listEq, length_cons]
    omega

theorem rmqueuePcplist_loses (inside : zoneType < maxNrZones)
    (returns : rmqueuePcplist allocator zoneType = .ok (some page, after)) :
    Loses 1 allocator after := by
  rw [rmqueuePcplist] at returns
  split at returns
  · cases filled : refillPcplist allocator zoneType with
    | error fault => simp [filled] at returns
    | ok middle =>
      rw [filled] at returns
      have refill := refillPcplist_loses inside filled
      have take := takePcplist_loses (Except.ok.inj returns)
      refine ⟨refill.refcounts.trans take.refcounts, take.zonerefs.trans refill.zonerefs, ?_⟩
      have kept := refill.allocatable
      rw [add_zero] at kept
      exact take.allocatable.trans kept
  · exact takePcplist_loses (Except.ok.inj returns)

theorem rmqueue_loses (inside : zoneType < maxNrZones)
    (returns : rmqueue allocator zoneType order = .ok (page, after)) :
    Loses (2 ^ order) allocator after := by
  rw [rmqueue] at returns
  split at returns
  · rename_i single
    obtain ⟨⟨found, next⟩, listed, rest⟩ := bind_ok.mp returns
    cases found with
    | none => cases rest
    | some first =>
      cases rest
      rw [single]
      exact rmqueuePcplist_loses inside listed
  · obtain ⟨_, found, rest⟩ := bind_ok.mp returns
    obtain ⟨⟨first, next⟩, taken, rest⟩ := bind_ok.mp rest
    cases rest
    have takes := takes_rmqueueSmallest (rmqueueOrPanic_ok taken)
    have same := takes.refcounts
    rw [zoneState_ok found] at same
    exact ⟨same, rfl, allocatable_withZone inside found takes⟩

section

theorem memMap_modifyPage (allocator : PageAllocator) (pfn : Nat) (change : Page → Page) :
    (allocator.modifyPage pfn change).memMap = allocator.memMap.modify pfn change :=
  rfl

/-- A page with one reference, which `__free_pages` drops. -/
theorem freePages_setRefcounted :
    freePages (allocator.modifyPage page Page.setRefcounted) page order =
      freePagesOk (allocator.modifyPage page fun page =>
        page.setRefcounted.putPage) page order := by
  have twice : (allocator.modifyPage page Page.setRefcounted).modifyPage page Page.putPage =
      allocator.modifyPage page fun page => page.setRefcounted.putPage := by
    simp only [PageAllocator.modifyPage, MemMap.modify, update_self, update_idem]
  have zero : ((allocator.modifyPage page fun page => page.setRefcounted.putPage).memMap
      page).refcount = 0 := by
    rw [memMap_modifyPage, MemMap.modify_self]
    rfl
  rw [freePages, twice]
  exact if_pos zero

variable (settled : allocator.Settled)

include settled

/-- An allocation takes the pages of its block and leaves their reference counts as they are. -/
theorem allocPages_loses {gfpMask : UInt32}
    (returns : allocPages allocator gfpMask order = .ok (page, after)) :
    Loses (2 ^ order) allocator after := by
  rw [allocPages] at returns
  split at returns
  · cases returns
  · cases suffix : firstZonesZonelist allocator.zonerefs (gfpZone gfpMask) with
    | nil => simp [suffix] at returns
    | cons zoneType rest =>
      rw [suffix] at returns
      have member : zoneType ∈ allocator.zonerefs := by
        have first : zoneType ∈ firstZonesZonelist allocator.zonerefs (gfpZone gfpMask) := by
          rw [suffix]
          exact mem_cons_self
        exact (dropWhile_sublist _).subset first
      exact rmqueue_loses (settled.zonerefs zoneType member) returns

/-- With no page referenced, `__free_pages` only makes a count negative. -/
theorem freePages_of_settled :
    freePages allocator page order = .ok (allocator.modifyPage page Page.putPage) := by
  have bound := settled.refcounts page
  have negative : ((allocator.modifyPage page Page.putPage).memMap page).refcount ≠ 0 := by
    rw [memMap_modifyPage, MemMap.modify_self]
    show (allocator.memMap page).refcount - 1 ≠ 0
    omega
  exact if_neg negative

theorem PageAllocator.Settled.modifyPage {change : Page → Page}
    (lowered : ∀ page : Page, page.refcount ≤ 0 → (change page).refcount ≤ 0) :
    (allocator.modifyPage page change).Settled := by
  refine ⟨fun pfn => ?_, settled.zonerefs⟩
  rw [memMap_modifyPage]
  by_cases same : pfn = page
  · rw [same, MemMap.modify_self]
    exact lowered _ (settled.refcounts page)
  · rw [MemMap.modify_of_ne _ _ same]
    exact settled.refcounts pfn

theorem PageAllocator.Settled.putPage : (allocator.modifyPage page Page.putPage).Settled :=
  settled.modifyPage fun page bound => by
    show page.refcount - 1 ≤ 0
    omega

theorem freePagesAt_of_settled (returns : freePagesAt allocator addr order = .ok after) :
    after.Settled ∧ after.allocatable = allocator.allocatable := by
  rw [freePagesAt] at returns
  split at returns
  · dsimp only at returns
    split at returns
    · cases returns
    · rw [freePages_of_settled settled] at returns
      cases returns
      exact ⟨settled.putPage, rfl⟩
  · cases returns
    exact ⟨settled, rfl⟩

theorem freePageLoop_of_settled {limit : UInt64} {turns : Nat}
    (returns : freePageLoop limit turns addr allocator = .ok after) :
    after.Settled ∧ after.allocatable = allocator.allocatable := by
  induction turns generalizing addr allocator with
  | zero => cases returns
  | succ turns ih =>
    rw [freePageLoop] at returns
    split at returns
    · obtain ⟨_, freed, rest⟩ := bind_ok.mp returns
      obtain ⟨nextSettled, same⟩ := freePagesAt_of_settled settled freed
      obtain ⟨afterSettled, rest⟩ := ih nextSettled rest
      exact ⟨afterSettled, rest.trans same⟩
    · cases returns
      exact ⟨settled, rfl⟩

theorem allocPagesExact_loses {size : UInt64} {gfpMask : UInt32}
    (returns : allocPagesExact allocator size gfpMask = .ok (addr, after)) :
    after.Settled ∧ after.allocatable + 2 ^ getOrder size ≤ allocator.allocatable := by
  rw [allocPagesExact] at returns
  split at returns
  · cases returns
  · obtain ⟨⟨_, _⟩, found, rest⟩ := bind_ok.mp returns
    obtain ⟨⟨_, _⟩, taken, found⟩ := bind_ok.mp found
    cases found
    have loses := allocPages_loses settled taken
    have nextSettled := loses.settled settled
    simp only [makeAllocExact] at rest
    split at rest
    · obtain ⟨_, freed, rest⟩ := bind_ok.mp rest
      cases rest
      obtain ⟨afterSettled, same⟩ := freePageLoop_of_settled nextSettled freed
      exact ⟨afterSettled, by rw [same]; exact loses.allocatable⟩
    · cases rest
      exact ⟨nextSettled, loses.allocatable⟩

/-! ### The boot hand-over -/

theorem PageAllocator.Settled.foldl {Item : Type} {change : PageAllocator → Item → PageAllocator}
    (kept : ∀ allocator item, Settled allocator → (change allocator item).Settled)
    (items : List Item) : (items.foldl change allocator).Settled := by
  induction items generalizing allocator with
  | nil => exact settled
  | cons item rest ih => exact ih (kept allocator item settled)

theorem PageAllocator.Settled.reserveBootmemRegion (range : MemRange) :
    (reserveBootmemRegion allocator range).Settled := by
  refine settled.foldl (fun allocator pfn before => ?_) _
  rw [reserveBootmemPage]
  split
  · exact before.modifyPage fun _ bound => bound
  · exact before

theorem PageAllocator.Settled.freePagesOk (returns : freePagesOk allocator page order = .ok after) :
    after.Settled := by
  obtain ⟨state, found, rest⟩ := bind_ok.mp returns
  cases rest
  have same : SameRefcounts _ _ :=
    sameView_freeOnePage (fun _ _ => rfl) (fun _ => rfl) state page order
  rw [zoneState_ok found] at same ⊢
  refine ⟨fun pfn => ?_, settled.zonerefs⟩
  show ((freeOnePage _ page order).memMap pfn).refcount ≤ 0
  rw [same pfn]
  exact settled.refcounts pfn

/-- The hand-over references the first page of a block and drops the reference again. -/
theorem PageAllocator.Settled.freePagesCore
    (returns : freePagesCore allocator page order = .ok after) : after.Settled := by
  have unreserved : (unreservePages allocator page (1 <<< order)).Settled :=
    settled.foldl (fun _ _ before => before.modifyPage fun _ _ => le_rfl) _
  have managed : (addManagedPages (unreservePages allocator page (1 <<< order))
      ((unreservePages allocator page (1 <<< order)).memMap page).zoneId (1 <<< order)).Settled :=
    ⟨unreserved.refcounts, unreserved.zonerefs⟩
  simp only [Xlinux.freePagesCore, freePages_setRefcounted] at returns
  exact (managed.modifyPage fun _ _ => le_rfl).freePagesOk returns

end

variable {memblock final : Memblock} (arranged : memblock.Arranged) {maxLowPfn count : UInt64}
  (returns : memblockFreeAll buddyHooks memblock maxLowPfn allocator = .ok (count, final, after))

include arranged returns

/-- What the boot hand-over does: it reserves the reserved regions and frees the blocks. -/
theorem memblockFreeAll_ok :
    (memblock.handedBlocks maxLowPfn).foldlM
      (fun allocator block => freePagesCore allocator block.pfn.toNat block.order)
      ((memblock.reserved.regions.map reservedRange).foldl reserveBootmemRegion allocator) =
        .ok after ∧ final = { memblock with stopped := true } := by
  have running : memblock.stopped = false := by
    cases stopped : memblock.stopped with
    | false => rfl
    | true => simp [memblockFreeAll, stopped, throw, throwThe, MonadExceptOf.throw, bind,
        Except.bind] at returns
  rw [buddyHooks, memblockFreeAll_eq arranged running] at returns
  obtain ⟨reserved, reserves, rest⟩ := bind_ok.mp returns
  obtain ⟨_, frees, rest⟩ := bind_ok.mp rest
  cases rest
  have folded := reserves.symm.trans (foldlM_pure ..)
  cases folded
  exact ⟨frees, rfl⟩

/-- Every allocator that the boot hand-over makes is settled. -/
theorem settled_memblockFreeAll (settled : allocator.Settled) : after.Settled := by
  have frees := (memblockFreeAll_ok arranged returns).1
  have first : ((memblock.reserved.regions.map reservedRange).foldl reserveBootmemRegion
      allocator).Settled :=
    settled.foldl (fun _ range before => before.reserveBootmemRegion range) _
  rw [← Run.run_eq_foldlM] at frees
  exact Run.run_invariant (fun _ _ _ kept stepped => kept.freePagesCore stepped) first frees

end Allocator

/-! ### Pairs of calls -/

/-- A call of another module. -/
inductive PageCall where
  | alloc (gfpMask : UInt32) (order : Nat)
  | free (page order : Nat)
  deriving DecidableEq, Repr

/-- The allocator, and the blocks that other modules hold. -/
structure PageUsers where
  allocator : PageAllocator
  held : List (Nat × Nat)

/-- One call. A block is freed by whom it was given to, with its order. -/
def pageCall (users : PageUsers) : PageCall → Except Halt PageUsers
  | .alloc gfpMask order =>
    match allocPages users.allocator gfpMask order with
    | .ok (page, allocator) => .ok ⟨allocator, (page, order) :: users.held⟩
    | .error fault => .error (.fault fault)
  | .free page order =>
    if (page, order) ∈ users.held then
      match freePages users.allocator page order with
      | .ok allocator => .ok ⟨allocator, users.held.erase (page, order)⟩
      | .error fault => .error (.fault fault)
    else .error .misuse

theorem PageAllocator.Settled.pageCall {users next : PageUsers} {call : PageCall}
    (settled : users.allocator.Settled) (returns : pageCall users call = .ok next) :
    next.allocator.Settled := by
  cases call with
  | alloc gfpMask order =>
    rw [Xlinux.pageCall] at returns
    cases taken : allocPages users.allocator gfpMask order with
    | error fault => simp [taken] at returns
    | ok result =>
      rw [taken] at returns
      cases returns
      exact (allocPages_loses settled taken).settled settled
  | free page order =>
    rw [Xlinux.pageCall, freePages_of_settled settled] at returns
    split at returns
    · cases returns
      exact settled.putPage
    · cases returns

/-- The allocator after `init_module`. -/
def Booted (allocator : PageAllocator) : Prop :=
  ∃ (memblock final : Memblock) (maxLowPfn pfnBase vaPaOffset count : UInt64)
    (managedPages : Nat → Int) (initialized : Nat → Bool), memblock.Arranged ∧
      memblockFreeAll buddyHooks memblock maxLowPfn
        (PageAllocator.initial pfnBase maxLowPfn vaPaOffset managedPages initialized) =
        .ok (count, final, allocator)

/-- In every state that calls reach after the boot, a block that is allocated and freed again, or
a size that is allocated and freed exactly, leaves fewer pages to allocate. -/
theorem allocPages_freePages_ne {booted : PageAllocator} {calls : List PageCall} {users : PageUsers}
    (boot : Booted booted) (ran : Run.run pageCall ⟨booted, []⟩ calls = .ok users) :
    (∀ gfpMask order page allocated freed,
      allocPages users.allocator gfpMask order = .ok (page, allocated) →
      freePages allocated page order = .ok freed →
      freed.allocatable ≠ users.allocator.allocatable) ∧
    ∀ gfpMask size addr allocated freed,
      allocPagesExact users.allocator size gfpMask = .ok (addr, allocated) →
      freePagesExact allocated addr size = .ok freed →
      freed.allocatable ≠ users.allocator.allocatable := by
  obtain ⟨_, _, _, _, _, _, _, _, arranged, handed⟩ := boot
  have start : booted.Settled := by
    refine settled_memblockFreeAll arranged handed ⟨fun _ => le_rfl, fun zoneType member => ?_⟩
    have listed := mem_reverse.mp (mem_of_mem_filter member)
    exact mem_range.mp listed
  have settled : users.allocator.Settled := by
    have preserved : ∀ (before : PageUsers) call (next : PageUsers), before.allocator.Settled →
        pageCall before call = .ok next → next.allocator.Settled :=
      fun _ _ _ before returns => before.pageCall returns
    exact Run.run_invariant preserved start ran
  refine ⟨fun gfpMask order page allocated freed taken frees => ?_,
    fun gfpMask size addr allocated freed taken frees => ?_⟩
  · have loses := allocPages_loses settled taken
    rw [freePages_of_settled (loses.settled settled)] at frees
    cases frees
    have lost := loses.allocatable
    have positive := Nat.two_pow_pos order
    show allocated.allocatable ≠ _
    omega
  · obtain ⟨allocatedSettled, lost⟩ := allocPagesExact_loses settled taken
    obtain ⟨_, _⟩ := freePageLoop_of_settled allocatedSettled frees
    have positive := Nat.two_pow_pos (getOrder size)
    omega

/-- An allocator over two pages, the frames 1 and 2, all in the first zone. -/
def twoPages : PageAllocator :=
  PageAllocator.initial 0 8 0xffffffe000000000 (fun zoneType => if zoneType = 0 then 2 else 0)
    (fun zoneType => zoneType = 0)

/-- A single page that is allocated from two and freed again is lost. -/
theorem allocPages_freePages_loses_page :
    ∃ memblock final count booted page allocated freed,
      Run.run memblockCall initialMemblock [.add 0x1000 0x2000] = .ok memblock ∧
      memblockFreeAll buddyHooks memblock 8 twoPages = .ok (count, final, booted) ∧
      allocPages booted 0 0 = .ok (page, allocated) ∧ freePages allocated page 0 = .ok freed ∧
      booted.allocatable = 2 ∧ freed.allocatable = 1 :=
  ⟨_, _, _, _, _, _, _, rfl, rfl, rfl, rfl, by decide, by decide⟩

/-- The same pair of calls right after the boot, with no call before it. -/
theorem allocPages_freePages_ne_page :
    ∃ booted page allocated freed, Booted booted ∧
      Run.run pageCall ⟨booted, []⟩ [] = .ok ⟨booted, []⟩ ∧
      allocPages booted 0 0 = .ok (page, allocated) ∧ freePages allocated page 0 = .ok freed ∧
      freed.allocatable ≠ booted.allocatable := by
  obtain ⟨memblock, ran, final, count, booted, handed, page, allocated, freed, takes, frees⟩ :
      ∃ memblock, Run.run memblockCall initialMemblock [.add 0x1000 0x2000] = .ok memblock ∧
        ∃ final count booted,
          memblockFreeAll buddyHooks memblock 8 twoPages = .ok (count, final, booted) ∧
          ∃ page allocated freed, allocPages booted 0 0 = .ok (page, allocated) ∧
            freePages allocated page 0 = .ok freed :=
    ⟨_, rfl, _, _, _, rfl, _, _, _, rfl, rfl⟩
  have boot : Booted booted :=
    ⟨memblock, final, 8, _, _, count, _, _, (normalised_of_run ran).arranged, handed⟩
  have idle : Run.run pageCall ⟨booted, []⟩ [] = .ok ⟨booted, []⟩ := rfl
  exact ⟨booted, page, allocated, freed, boot, idle, takes, frees,
    (allocPages_freePages_ne boot idle).1 0 0 page allocated freed takes frees⟩

end Xlinux
