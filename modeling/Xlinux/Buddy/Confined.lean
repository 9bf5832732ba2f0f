/-
This file follows free blocks through any calls of the page allocator. All
descriptors of a zeroed memory map have the zone number zero, so every block is
freed into the first zone; the other zones stay empty, and the blocks of the
first zone, the per-cpu list and the blocks that other modules hold are made of
the pages that the allocator was given.
-/

import Xlinux.Buddy.HandOver
import Xlinux.Buddy.Fallback

namespace Xlinux

open Blocks Multiset Kernel

/-! ### Taking blocks -/

section Taking

variable {pages : Set Nat} {state after : ZoneState} {order page : Nat}

/-- The free blocks and the blocks outside are inside the pages. -/
structure InsideBoth (pages : Set Nat) (state : ZoneState) (outside : Multiset Nat) : Prop where
  inside : state.Inside pages
  outside : ∀ page ∈ outside, page ∈ pages

theorem InsideBoth.half {outside : Multiset Nat} (bound : order + 1 < maxOrder)
    (fit : 2 ^ (order + 1) ∣ page)
    (both : InsideBoth pages state (block (order + 1) page + outside)) :
    InsideBoth pages
      (addToFreeList (setPageOrder state (page + 2 ^ order) order) (page + 2 ^ order) order)
      (block order page + outside) := by
  have halfFit : 2 ^ order ∣ page := (pow_dvd_pow 2 (Nat.le_succ order)).trans fit
  have halves : ∀ pfn, pfn ∈ block order page ∨ pfn ∈ block order (page + 2 ^ order) →
      pfn ∈ block (order + 1) page := by
    intro pfn member
    rw [block_succ, mem_add]
    exact member
  refine ⟨both.inside.put ((Nat.lt_succ_self order).trans bound)
    ((Nat.dvd_add_right halfFit).mpr dvd_rfl) (fun pfn member => ?_) (puts_addToFreeList ..), ?_⟩
  · exact both.outside pfn (mem_add.mpr (.inl (halves pfn (.inr member))))
  · intro pfn member
    refine both.outside pfn (mem_add.mpr ?_)
    exact (mem_add.mp member).imp_left fun low => halves pfn (.inl low)

section

variable (taken : rmqueueSmallest state order = (some page, after))

include taken

theorem InsideBoth.rmqueueSmallest {outside : Multiset Nat}
    (both : InsideBoth pages state outside) :
    InsideBoth pages after (block order page + outside) := by
  refine rmqueueSmallest_invariant taken (fun order _ => both.inside.aligned order)
    (fun found _ member => ⟨both.inside.del page found, fun pfn inBlock => ?_⟩)
    fun _ _ bound fit before => before.half bound fit
  exact (mem_add.mp inBlock).elim (both.inside.listed found page member pfn) (both.outside pfn)

/-- What neither tags nor orders change, taking a block does not change. -/
theorem sameView_rmqueueSmallest {View : Type} {view : Page → View}
    (tags : ∀ page order, view (page.setOrder order) = view page)
    (clears : ∀ page : Page, view (page.clearBuddy.setPrivate 0) = view page) :
    SameView view state.memMap after.memMap := by
  obtain ⟨_, low, _, _, rfl⟩ := rmqueueSmallest_some taken
  exact @expand_invariant 0 _ _ (fun after _ => SameView view state.memMap after.memMap) _ _
    (fun _ after _ same => same.trans (sameView_modify after.memMap _ fun page => tags page _)) low
    (sameView_modify state.memMap page clears)

theorem managedPages_rmqueueSmallest :
    after.zone.managedPages = state.zone.managedPages := by
  obtain ⟨_, low, _, _, rfl⟩ := rmqueueSmallest_some taken
  exact @expand_invariant 0 _ _
    (fun after _ => after.zone.managedPages = state.zone.managedPages) _ _
    (fun _ _ _ same => same) low rfl

end

theorem managedPages_freeOnePage (state : ZoneState) (pfn order : Nat) :
    (freeOnePage state pfn order).zone.managedPages = state.zone.managedPages := by
  have merged := mergeLoop_invariant
    (motive := fun merge => merge.state.zone.managedPages = state.zone.managedPages)
    (fun _ _ _ _ _ same => same) (fun _ _ same => same) (maxOrder - order)
    ⟨state, pfn, order, 0⟩ rfl
  rw [freeOnePage]
  split <;> exact merged

end Taking

/-! ### One zone -/

/-- What holds of a zone while the allocator is used: its free blocks and the given pages outside
are inside the pages, every descriptor has the zone number zero, only the first zone has free
blocks, and the count of managed pages is as it was. -/
structure ZoneKept (pages : Set Nat) (zoneType : Nat) (managed : Int) (state : ZoneState)
    (outside : Multiset Nat) : Prop extends InsideBoth pages state outside where
  zoned : ∀ pfn, (state.memMap pfn).zoneId = 0
  others : zoneType ≠ 0 → ∀ order, state.zone.list order = []
  managed : state.zone.managedPages = managed

section Zone

variable {pages : Set Nat} {zoneType : Nat} {managed : Int} {state after : ZoneState}
  {outside : Multiset Nat} {order page : Nat}

theorem ZoneKept.take (kept : ZoneKept pages zoneType managed state outside)
    (taken : rmqueueSmallest state order = (some page, after)) :
    ZoneKept pages zoneType managed after (block order page + outside) := by
  refine ⟨kept.toInsideBoth.rmqueueSmallest taken, fun pfn => ?_, fun other => ?_, ?_⟩
  · have same : SameView Page.zoneId state.memMap after.memMap :=
      sameView_rmqueueSmallest taken zoneId_setOrder zoneId_cleared
    exact (same pfn).trans (kept.zoned pfn)
  · -- a zone other than the first has no block to take
    obtain ⟨found, _, _, filled⟩ := (rmqueueSmallest_some_iff state order).mp ⟨page, after, taken⟩
    exact absurd (kept.others other found) filled
  · exact (managedPages_rmqueueSmallest taken).trans kept.managed

theorem ZoneKept.freeOnePage (kept : ZoneKept pages 0 managed state outside)
    (bound : order < maxOrder) (fit : 2 ^ order ∣ page)
    (within : ∀ pfn ∈ block order page, pfn ∈ pages) :
    ZoneKept pages 0 managed (freeOnePage state page order) outside := by
  refine ⟨⟨kept.inside.freeOnePage bound fit within, kept.outside⟩, fun pfn => ?_,
    absurd rfl, (managedPages_freeOnePage ..).trans kept.managed⟩
  have same : SameView Page.zoneId state.memMap (Xlinux.freeOnePage state page order).memMap :=
    sameView_freeOnePage zoneId_setOrder zoneId_cleared state page order
  exact (same pfn).trans (kept.zoned pfn)

end Zone

/-! ### The allocator -/

/-- All zones are kept, with the per-cpu list outside them. -/
def Confined (pages : Set Nat) (managed : Nat → Int) (allocator : PageAllocator) : Prop :=
  ∀ zoneType, ZoneKept pages zoneType (managed zoneType)
    ⟨allocator.memMap, allocator.nodeZones zoneType⟩ (listed 0 allocator.pageset.lists)

/-- A block of the given pages. -/
structure BlockOf (pages : Set Nat) (page order : Nat) : Prop where
  bound : order < maxOrder
  fit : 2 ^ order ∣ page
  within : ∀ pfn ∈ block order page, pfn ∈ pages

section Allocator

variable {pages : Set Nat} {managed : Nat → Int} {allocator after : PageAllocator}
  {zoneType order page : Nat}

theorem mem_listed_zero {lists : List Nat} {pfn : Nat} : pfn ∈ listed 0 lists ↔ pfn ∈ lists := by
  induction lists with
  | nil => exact ⟨nofun, nofun⟩
  | cons first rest ih =>
    rw [listed_cons, mem_add, ih, block_zero, mem_singleton, List.mem_cons]

namespace Confined

variable (confined : Confined pages managed allocator)

include confined

/-- A zone's new state and a new per-cpu list are put back. -/
theorem withZone {state : ZoneState} {pcp : PerCpuPages}
    (kept : ZoneKept pages zoneType (managed zoneType) state (listed 0 pcp.lists)) :
    Confined pages managed { allocator.withZone zoneType state with pageset := pcp } := by
  intro other
  show ZoneKept pages other (managed other)
    ⟨state.memMap, Function.update allocator.nodeZones zoneType state.zone other⟩ _
  by_cases same : other = zoneType
  · rw [same, Function.update_self]
    exact kept
  · rw [Function.update_of_ne same]
    have before := confined other
    exact ⟨⟨⟨before.inside.aligned, before.inside.listed, kept.inside.tagged⟩, kept.outside⟩,
      kept.zoned, before.others, before.managed⟩

theorem freePagesOk (block : BlockOf pages page order)
    (returns : freePagesOk allocator page order = .ok after) : Confined pages managed after := by
  obtain ⟨_, found, rest⟩ := bind_ok.mp returns
  obtain ⟨_, rfl⟩ := (zoneState_ok_iff allocator _).mp found
  cases rest
  rw [(confined 0).zoned page]
  exact confined.withZone ((confined 0).freeOnePage block.bound block.fit block.within)

/-- A change of the reference count. -/
theorem modifyPage (page : Nat) {change : Page → Page}
    (tags : ∀ page, (change page).isBuddy = page.isBuddy)
    (orders : ∀ page, (change page).order = page.order)
    (zones : ∀ page, (change page).zoneId = page.zoneId) :
    Confined pages managed (allocator.modifyPage page change) := by
  intro zoneType
  have before := confined zoneType
  have inside : (allocator.modifyPage page change).Inside pages :=
    PageAllocator.Inside.modifyPage (fun zoneType => (confined zoneType).inside) page tags orders
  refine ⟨⟨inside zoneType, before.outside⟩, fun pfn => ?_, before.others, before.managed⟩
  exact (zoneId_modify zones pfn).trans (before.zoned pfn)

theorem freePages (block : BlockOf pages page order)
    (returns : freePages allocator page order = .ok after) : Confined pages managed after := by
  have put : Confined pages managed (allocator.modifyPage page Page.putPage) :=
    confined.modifyPage page (fun _ => rfl) (fun _ => rfl) fun _ => rfl
  rw [Xlinux.freePages] at returns
  split at returns
  · exact put.freePagesOk block returns
  · cases returns
    exact put

theorem refillPcplist (returns : refillPcplist allocator zoneType = .ok after) :
    Confined pages managed after := by
  rw [Xlinux.refillPcplist] at returns
  obtain ⟨_, found, rest⟩ := bind_ok.mp returns
  obtain ⟨_, rfl⟩ := (zoneState_ok_iff allocator _).mp found
  obtain ⟨⟨_, _⟩, takes, same⟩ := bind_ok.mp rest
  cases same
  obtain ⟨_, appended, _, kept⟩ := rmqueueBulk_invariant
    (fun _ _ _ _ before taken => before.take taken) (confined zoneType) takes
  refine confined.withZone ⟨⟨kept.inside, fun pfn member => ?_⟩, kept.zoned, kept.others,
    kept.managed⟩
  rw [mem_listed_zero] at member
  rw [appended, List.mem_append] at member
  refine kept.outside pfn (mem_add.mpr ?_)
  rw [mem_listed_zero, mem_listed_zero]
  exact member.symm

theorem takePcplist (taken : takePcplist allocator = (some page, after)) :
    Confined pages managed after ∧ page ∈ pages := by
  rw [Xlinux.takePcplist] at taken
  cases lists : allocator.pageset.lists with
  | nil =>
    rw [lists] at taken
    cases taken
  | cons first rest =>
    rw [lists] at taken
    cases taken
    have outside := fun zoneType => (confined zoneType).outside
    simp only [mem_listed_zero, lists] at outside
    refine ⟨fun zoneType => ?_, outside 0 page List.mem_cons_self⟩
    have before := confined zoneType
    refine ⟨⟨before.inside, fun pfn member => ?_⟩, before.zoned, before.others, before.managed⟩
    rw [mem_listed_zero] at member
    exact outside zoneType pfn (List.mem_cons_of_mem _ member)

theorem rmqueue (bound : order < maxOrder)
    (returns : rmqueue allocator zoneType order = .ok (page, after)) :
    Confined pages managed after ∧ BlockOf pages page order := by
  rw [Xlinux.rmqueue] at returns
  by_cases single : order = 0
  · subst single
    rw [rmqueuePcplist] at returns
    obtain ⟨⟨found, next⟩, takes, rest⟩ := bind_ok.mp returns
    obtain ⟨refilled, before, taken⟩ : ∃ refilled, Confined pages managed refilled ∧
        Xlinux.takePcplist refilled = (found, next) := by
      split at takes
      · cases refills : Xlinux.refillPcplist allocator zoneType with
        | error fault =>
          rw [refills] at takes
          cases takes
        | ok refilled =>
          rw [refills] at takes
          exact ⟨refilled, confined.refillPcplist refills, Except.ok.inj takes⟩
      · exact ⟨allocator, confined, Except.ok.inj takes⟩
    cases found with
    | none => cases rest
    | some first =>
      cases rest
      obtain ⟨kept, member⟩ := before.takePcplist taken
      refine ⟨kept, bound, one_dvd page, fun pfn inBlock => ?_⟩
      rw [block_zero, mem_singleton] at inBlock
      exact inBlock ▸ member
  · rw [if_neg single] at returns
    obtain ⟨_, found, rest⟩ := bind_ok.mp returns
    obtain ⟨_, rfl⟩ := (zoneState_ok_iff allocator _).mp found
    obtain ⟨⟨first, next⟩, takes, same⟩ := bind_ok.mp rest
    cases same
    have taken := rmqueueOrPanic_ok takes
    have kept := (confined zoneType).take taken
    have free := fun pfn member => kept.outside pfn (mem_add.mpr (.inl member))
    obtain ⟨found, low, _, listed, _⟩ := rmqueueSmallest_some taken
    refine ⟨confined.withZone ⟨⟨kept.inside, (confined zoneType).outside⟩, kept.zoned, kept.others,
      kept.managed⟩, bound, (pow_dvd_pow 2 low).trans ?_, free⟩
    exact (confined zoneType).inside.aligned found _ listed

theorem allocPages {gfpMask : UInt32}
    (returns : allocPages allocator gfpMask order = .ok (page, after)) :
    Confined pages managed after ∧ BlockOf pages page order := by
  rw [Xlinux.allocPages] at returns
  split at returns
  · cases returns
  · rename_i small
    split at returns
    · cases returns
    · exact confined.rmqueue (not_le.mp small) returns

end Confined

/-! ### Runs of calls -/

/-- The allocator is confined to the pages, and so are the blocks that other modules hold. -/
structure PageUsers.Confined (pages : Set Nat) (managed : Nat → Int) (users : PageUsers) :
    Prop where
  allocator : Xlinux.Confined pages managed users.allocator
  held : ∀ held ∈ users.held, BlockOf pages held.1 held.2

theorem PageUsers.Confined.pageCall {users next : PageUsers} {call : PageCall}
    (confined : users.Confined pages managed) (returns : pageCall users call = .ok next) :
    next.Confined pages managed := by
  cases call with
  | alloc gfpMask order =>
    rw [Xlinux.pageCall] at returns
    cases taken : allocPages users.allocator gfpMask order with
    | error fault => simp [taken] at returns
    | ok result =>
      rw [taken] at returns
      cases returns
      obtain ⟨kept, block⟩ := confined.allocator.allocPages taken
      refine ⟨kept, fun held member => ?_⟩
      rcases List.mem_cons.mp member with rfl | old
      · exact block
      · exact confined.held held old
  | free page order =>
    rw [Xlinux.pageCall] at returns
    split at returns
    · rename_i holds
      cases freed : freePages users.allocator page order with
      | error fault => simp [freed] at returns
      | ok after =>
        rw [freed] at returns
        cases returns
        exact ⟨confined.allocator.freePages (confined.held _ holds) freed,
          fun held member => confined.held held (List.mem_of_mem_erase member)⟩
    · cases returns

end Allocator

end Xlinux
