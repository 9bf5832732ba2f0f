/-
This file says when `__alloc_pages_nodemask` returns a block. It asks the first
zone of the zonelist that the mask allows and no other, because `rmqueue` panics
where it has no block; and for a single page it refills the per-cpu list with a
whole batch, which panics in a zone that has fewer free pages than a batch.
-/

import Xlinux.Buddy.RoundTrip

namespace Xlinux

open Blocks List Multiset Kernel

/-! ### Taking blocks of a zone -/

/-- The zone has a free block of the order or a larger one. -/
def Zone.HasBlock (zone : Zone) (order : Nat) : Prop :=
  ∃ found, order ≤ found ∧ found < maxOrder ∧ zone.list found ≠ []

section Zone

variable {state after : ZoneState} {order page : Nat}

theorem rmqueueLoop_none (order turns current : Nat) (state : ZoneState)
    (missing : (rmqueueLoop order turns current state).1 = none) (found : Nat)
    (low : current ≤ found) (high : found < current + turns) : state.zone.list found = [] := by
  induction turns generalizing current with
  | zero => omega
  | succ turns ih =>
    rw [rmqueueLoop] at missing
    cases listEq : (state.zone.freeArea current).freeList with
    | nil =>
      simp only [listEq] at missing
      rcases eq_or_lt_of_le low with same | later
      · rw [← same]
        exact listEq
      · exact ih (current + 1) missing later (by omega)
    | cons first rest =>
      simp [listEq] at missing

/-- `__rmqueue_smallest` finds a block if there is one. -/
theorem rmqueueSmallest_some_iff (state : ZoneState) (order : Nat) :
    (∃ page after, rmqueueSmallest state order = (some page, after)) ↔
      state.zone.HasBlock order := by
  constructor
  · rintro ⟨page, after, taken⟩
    obtain ⟨found, low, bound, member, _⟩ := rmqueueSmallest_some taken
    exact ⟨found, low, bound, ne_nil_of_mem member⟩
  · rintro ⟨found, low, bound, filled⟩
    cases taken : rmqueueSmallest state order with
    | mk result after =>
      cases result with
      | some page => exact ⟨page, after, rfl⟩
      | none =>
        have missing : (rmqueueLoop order (maxOrder - order) order state).1 = none :=
          congrArg Prod.fst taken
        exact absurd (rmqueueLoop_none _ _ _ state missing found low (by omega)) filled

theorem rmqueueOrPanic_ok_iff (state : ZoneState) (order : Nat) :
    (∃ result, rmqueueOrPanic state order = .ok result) ↔ state.zone.HasBlock order := by
  rw [← rmqueueSmallest_some_iff]
  constructor
  · rintro ⟨⟨page, after⟩, returns⟩
    exact ⟨page, after, rmqueueOrPanic_ok returns⟩
  · rintro ⟨page, after, taken⟩
    exact ⟨(page, after), by rw [rmqueueOrPanic, taken]⟩

/-- Splitting a block puts all of it but the block asked for on the lists. -/
theorem freePages_expand (page : Nat) {low high : Nat} (split : low ≤ high)
    (bound : high < maxOrder) (state : ZoneState) :
    (expand page low high state).zone.freePages + block low page =
      state.zone.freePages + block high page := by
  have kept := expand_invariant (motive := fun after outside =>
      after.zone.freePages + outside = state.zone.freePages + block high page)
    (fun order after less same => ?_) split (congrArg (_ + ·) (add_zero (block high page)))
  · rwa [add_zero] at kept
  · rw [block_succ] at same
    rw [(puts_addToFreeList after (page + 2 ^ order) order).freePages (less.trans bound), ← same]
    ac_rfl

/-- A block is taken off the free pages of a zone with distinct free pages. -/
theorem freePages_rmqueueSmallest (distinct : state.zone.freePages.Nodup)
    (taken : rmqueueSmallest state order = (some page, after)) :
    state.zone.freePages = after.zone.freePages + block order page := by
  obtain ⟨_, low, bound, member, rfl⟩ := rmqueueSmallest_some taken
  rw [freePages_expand page low bound, freePages_del distinct bound member, add_comm]

/-- The free pages of a zone and some pages outside it are together the given ones. -/
def Balances (pages : Multiset Nat) (state : ZoneState) (outside : Multiset Nat) : Prop :=
  state.zone.freePages + outside = pages

theorem Balances.take {pages outside : Multiset Nat} (balances : Balances pages state outside)
    (distinct : pages.Nodup) (taken : rmqueueSmallest state order = (some page, after)) :
    Balances pages after (block order page + outside) := by
  unfold Balances at balances ⊢
  have apart : state.zone.freePages.Nodup := by
    rw [← balances, nodup_add] at distinct
    exact distinct.1
  rw [← balances, freePages_rmqueueSmallest apart taken, add_assoc]

theorem hasBlock_zero_iff (zone : Zone) : zone.HasBlock 0 ↔ 0 < zone.freeCount := by
  rw [Zone.freeCount, Finset.sum_pos_iff]
  constructor
  · rintro ⟨found, _, bound, filled⟩
    exact ⟨found, Finset.mem_range.mpr bound,
      mul_pos (length_pos_iff.mpr filled) (Nat.two_pow_pos found)⟩
  · rintro ⟨found, member, positive⟩
    refine ⟨found, Nat.zero_le found, Finset.mem_range.mp member, fun empty => ?_⟩
    rw [empty] at positive
    exact absurd positive (by rw [length_nil, zero_mul]; exact lt_irrefl 0)

/-- The refill succeeds if and only if the zone has as many free pages. -/
theorem rmqueueBulk_ok_iff (state : ZoneState) (distinct : state.zone.freePages.Nodup) (count : Nat)
    (list : List Nat) :
    (∃ result, rmqueueBulk 0 count list state = .ok result) ↔ count ≤ state.zone.freeCount := by
  induction count generalizing list state with
  | zero => exact ⟨fun _ => Nat.zero_le _, fun _ => ⟨_, rfl⟩⟩
  | succ count ih =>
    rw [rmqueueBulk]
    cases taken : rmqueueOrPanic state 0 with
    | error fault =>
      have none : ¬ state.zone.HasBlock 0 := by
        rw [← rmqueueOrPanic_ok_iff, taken]
        rintro ⟨_, returns⟩
        cases returns
      rw [hasBlock_zero_iff] at none
      constructor
      · rintro ⟨_, returns⟩
        cases returns
      · intro enough
        omega
    | ok result =>
      obtain ⟨_, next⟩ := result
      have moved := freePages_rmqueueSmallest distinct (rmqueueOrPanic_ok taken)
      have fewer : next.zone.freeCount + 1 = state.zone.freeCount := by
        rw [Zone.freeCount_eq_card, Zone.freeCount_eq_card, moved, card_add]
        rfl
      rw [moved, nodup_add] at distinct
      rw [ih next distinct.1]
      omega

end Zone

/-! ### The allocator -/

section Allocator

variable (allocator : PageAllocator) (zoneType order : Nat)

/-- What `rmqueue` needs of the zone it is called for: a block, or for a single page a page on the
per-cpu list or a whole batch of free pages. -/
def PageAllocator.Serves : Prop :=
  if order = 0 then
    allocator.pageset.lists ≠ [] ∨ (allocator.nodeZones zoneType).initialized = true ∧
      0 < allocator.pageset.batch ∧
      allocator.pageset.batch ≤ (allocator.nodeZones zoneType).freeCount
  else (allocator.nodeZones zoneType).initialized = true ∧
    (allocator.nodeZones zoneType).HasBlock order

/-- The pages that were free: on the lists of the zone, or on the per-cpu list. -/
def PageAllocator.FreeBlock (page : Nat) : Prop :=
  block order page ≤ (allocator.nodeZones zoneType).freePages ∨
    order = 0 ∧ page ∈ allocator.pageset.lists

theorem zoneState_ok_iff {state : ZoneState} : allocator.zoneState zoneType = .ok state ↔
    (allocator.nodeZones zoneType).initialized = true ∧
      state = ⟨allocator.memMap, allocator.nodeZones zoneType⟩ := by
  rw [PageAllocator.zoneState]
  split
  · rename_i initialized
    exact ⟨fun same => ⟨initialized, (Except.ok.inj same).symm⟩, fun same => by rw [same.2]⟩
  · rename_i missing
    exact ⟨(by cases ·), fun same => absurd same.1 missing⟩

variable {allocator zoneType order}

section

variable (distinct : (allocator.nodeZones zoneType).freePages.Nodup)

include distinct

theorem refillPcplist_ok_iff :
    (∃ after, refillPcplist allocator zoneType = .ok after) ↔
      (allocator.nodeZones zoneType).initialized = true ∧
        allocator.pageset.batch ≤ (allocator.nodeZones zoneType).freeCount := by
  have counts : (∃ result, rmqueueBulk 0 allocator.pageset.batch allocator.pageset.lists
      ⟨allocator.memMap, allocator.nodeZones zoneType⟩ = .ok result) ↔
      allocator.pageset.batch ≤ (allocator.nodeZones zoneType).freeCount :=
    rmqueueBulk_ok_iff ⟨allocator.memMap, allocator.nodeZones zoneType⟩ distinct _ _
  rw [refillPcplist, ← counts]
  constructor
  · rintro ⟨after, returns⟩
    obtain ⟨_, found, rest⟩ := bind_ok.mp returns
    obtain ⟨initialized, rfl⟩ := (zoneState_ok_iff allocator zoneType).mp found
    obtain ⟨taken, takes, _⟩ := bind_ok.mp rest
    exact ⟨initialized, taken, takes⟩
  · rintro ⟨initialized, ⟨lists, after⟩, takes⟩
    rw [(zoneState_ok_iff allocator zoneType).mpr ⟨initialized, rfl⟩, ok_bind, takes]
    exact ⟨_, rfl⟩

/-- The page on top of the per-cpu list after a refill was on a free list of the zone. -/
theorem refillPcplist_spec {after : PageAllocator}
    (returns : refillPcplist allocator zoneType = .ok after) :
    ∃ added, after.pageset.lists = allocator.pageset.lists ++ added ∧
      added.length = allocator.pageset.batch ∧
      listed 0 added ≤ (allocator.nodeZones zoneType).freePages := by
  rw [refillPcplist] at returns
  obtain ⟨_, found, rest⟩ := bind_ok.mp returns
  obtain ⟨_, rfl⟩ := (zoneState_ok_iff allocator zoneType).mp found
  obtain ⟨⟨lists, _⟩, takes, same⟩ := bind_ok.mp rest
  cases same
  have start : Balances (allocator.nodeZones zoneType).freePages
      ⟨allocator.memMap, allocator.nodeZones zoneType⟩ 0 := add_zero _
  obtain ⟨added, appended, length, balanced⟩ :=
    rmqueueBulk_invariant (fun _ _ _ _ before taken => before.take distinct taken) start takes
  refine ⟨added, appended, length, ?_⟩
  rw [← balanced, add_zero]
  exact le_add_left _ _

theorem serves_of_rmqueue {page : Nat} {after : PageAllocator}
    (returns : rmqueue allocator zoneType order = .ok (page, after)) :
    allocator.Serves zoneType order := by
  rw [rmqueue] at returns
  unfold PageAllocator.Serves
  split
  · rename_i single
    rw [if_pos single, rmqueuePcplist] at returns
    rw [or_iff_not_imp_left, not_not]
    intro empty
    rw [empty, isEmpty_nil] at returns
    obtain ⟨taken, takes, rest⟩ := bind_ok.mp returns
    cases refilled : refillPcplist allocator zoneType with
    | error fault =>
      rw [refilled] at takes
      cases takes
    | ok next =>
      obtain ⟨_, appended, length, _⟩ := refillPcplist_spec distinct refilled
      obtain ⟨initialized, enough⟩ := (refillPcplist_ok_iff distinct).mp ⟨next, refilled⟩
      refine ⟨initialized, pos_of_ne_zero fun none => ?_, enough⟩
      -- with an empty batch the list is still empty after the refill
      rw [empty] at appended
      rw [none] at length
      rw [refilled] at takes
      cases takes
      rw [takePcplist, appended, length_eq_zero_iff.mp length] at rest
      cases rest
  · rename_i several
    rw [if_neg several] at returns
    obtain ⟨_, found, rest⟩ := bind_ok.mp returns
    obtain ⟨initialized, rfl⟩ := (zoneState_ok_iff allocator zoneType).mp found
    obtain ⟨taken, takes, _⟩ := bind_ok.mp rest
    exact ⟨initialized, (rmqueueOrPanic_ok_iff _ order).mp ⟨taken, takes⟩⟩

theorem rmqueue_zero_of_serves (serves : allocator.Serves zoneType 0) :
    ∃ page after, rmqueue allocator zoneType 0 = .ok (page, after) ∧
      allocator.FreeBlock zoneType 0 page := by
  rw [rmqueue, if_pos rfl, rmqueuePcplist]
  cases lists : allocator.pageset.lists with
  | cons page rest =>
    refine ⟨page, (takePcplist allocator).2, ?_, .inr ⟨rfl, lists ▸ mem_cons_self⟩⟩
    rw [isEmpty_cons, if_neg Bool.false_ne_true, takePcplist, lists]
    rfl
  | nil =>
    obtain ⟨initialized, _, enough⟩ := serves.resolve_left (not_not.mpr lists)
    obtain ⟨next, refilled⟩ := (refillPcplist_ok_iff distinct).mpr ⟨initialized, enough⟩
    obtain ⟨added, appended, length, inside⟩ := refillPcplist_spec distinct refilled
    rw [lists] at appended
    obtain ⟨page, rest, rfl⟩ : ∃ page rest, added = page :: rest := by
      refine exists_cons_of_ne_nil fun none => ?_
      rw [none, length_nil] at length
      omega
    have taken : takePcplist <$> refillPcplist allocator zoneType = .ok (takePcplist next) := by
      rw [refilled]
      rfl
    refine ⟨page, (takePcplist next).2, ?_, .inl ((le_add_right _ _).trans inside)⟩
    rw [isEmpty_nil, if_pos rfl, taken, takePcplist, appended]
    rfl

theorem rmqueue_of_serves (serves : allocator.Serves zoneType order) :
    ∃ page after, rmqueue allocator zoneType order = .ok (page, after) ∧
      allocator.FreeBlock zoneType order page := by
  by_cases single : order = 0
  · subst single
    exact rmqueue_zero_of_serves distinct serves
  · rw [PageAllocator.Serves, if_neg single] at serves
    obtain ⟨initialized, hasBlock⟩ := serves
    obtain ⟨⟨page, next⟩, takes⟩ := (rmqueueOrPanic_ok_iff
      ⟨allocator.memMap, allocator.nodeZones zoneType⟩ order).mpr hasBlock
    refine ⟨page, allocator.withZone zoneType next, ?_, .inl ?_⟩
    · rw [rmqueue, if_neg single, (zoneState_ok_iff allocator zoneType).mpr ⟨initialized, rfl⟩,
        ok_bind, takes]
      rfl
    · have moved : (allocator.nodeZones zoneType).freePages =
          next.zone.freePages + block order page :=
        @freePages_rmqueueSmallest ⟨allocator.memMap, allocator.nodeZones zoneType⟩ next order page
          distinct (rmqueueOrPanic_ok takes)
      exact moved ▸ le_add_left _ _

end

end Allocator

/-! ### The zonelist -/

/-- The zonelist has a zone that the mask allows with a free block of the order or a larger one. -/
def PageAllocator.Supplied (allocator : PageAllocator) (gfpMask : UInt32) (order : Nat) : Prop :=
  ∃ zoneType ∈ allocator.zonerefs, zoneType ≤ gfpZone gfpMask ∧
    (allocator.nodeZones zoneType).HasBlock order

/-- The first zone of the zonelist that the mask allows can serve the order. -/
def PageAllocator.FirstServes (allocator : PageAllocator) (gfpMask : UInt32) (order : Nat) : Prop :=
  ∃ zoneType rest, firstZonesZonelist allocator.zonerefs (gfpZone gfpMask) = zoneType :: rest ∧
    allocator.Serves zoneType order

/-- `__alloc_pages_nodemask` returns a block that was free. -/
def PageAllocator.Allocates (allocator : PageAllocator) (gfpMask : UInt32) (order : Nat) : Prop :=
  ∃ page after zoneType, allocPages allocator gfpMask order = .ok (page, after) ∧
    allocator.FreeBlock zoneType order page

theorem allocates_iff {allocator : PageAllocator} {gfpMask : UInt32} {order : Nat}
    (bound : order < maxOrder)
    (distinct : ∀ zoneType, (allocator.nodeZones zoneType).freePages.Nodup) :
    allocator.Allocates gfpMask order ↔ allocator.FirstServes gfpMask order := by
  unfold PageAllocator.Allocates PageAllocator.FirstServes allocPages
  rw [if_neg (not_le.mpr bound)]
  cases zones : firstZonesZonelist allocator.zonerefs (gfpZone gfpMask) with
  | nil =>
    constructor
    · rintro ⟨_, _, _, returns, _⟩
      cases returns
    · rintro ⟨_, _, same, _⟩
      cases same
  | cons first rest =>
    constructor
    · rintro ⟨page, after, zoneType, returns, free⟩
      exact ⟨first, rest, rfl, serves_of_rmqueue (distinct first) returns⟩
    · rintro ⟨_, _, same, serves⟩
      cases same
      obtain ⟨page, after, returns, free⟩ := rmqueue_of_serves (distinct first) serves
      exact ⟨page, after, first, returns, free⟩

/-- Where some zone that the mask allows has a block, `__alloc_pages_nodemask` returns one, if and
only if the first such zone of the zonelist can serve the order itself. -/
theorem allocPages_supplied_iff {allocator : PageAllocator} {gfpMask : UInt32} {order : Nat}
    (bound : order < maxOrder)
    (distinct : ∀ zoneType, (allocator.nodeZones zoneType).freePages.Nodup) :
    (allocator.Supplied gfpMask order → allocator.Allocates gfpMask order) ↔
      (allocator.Supplied gfpMask order → allocator.FirstServes gfpMask order) :=
  forall_congr' fun _ => allocates_iff bound distinct

/-- An allocator with one zone and one free page. -/
def lonePage : PageAllocator :=
  (PageAllocator.initial 0 8 0 (fun zoneType => if zoneType = 0 then 1 else 0)
    fun zoneType => zoneType = 0).withZone 0 (addToFreeList ⟨fun _ => zeroPage, emptyZone 1⟩ 1 0)

/-- The one page is found. -/
theorem allocPages_supplied_iff_onePage :
    (0 : Nat) < maxOrder ∧ (∀ zoneType, (lonePage.nodeZones zoneType).freePages.Nodup) ∧
      lonePage.Supplied 0 0 ∧ lonePage.Allocates 0 0 := by
  have distinct : ∀ zoneType, (lonePage.nodeZones zoneType).freePages.Nodup := by
    intro zoneType
    by_cases first : zoneType = 0
    · rw [first]
      decide
    · have empty : (lonePage.nodeZones zoneType).freePages = 0 := by
        rw [show lonePage.nodeZones zoneType = _ from Function.update_of_ne first _ _,
          Zone.freePages]
        exact Finset.sum_eq_zero fun order _ => rfl
      rw [empty]
      exact nodup_zero
  have supplied : lonePage.Supplied 0 0 :=
    ⟨0, by decide, by decide, 0, by decide, by decide, by decide⟩
  refine ⟨by decide, distinct, supplied,
    (allocPages_supplied_iff (by decide) distinct).mpr ?_ supplied⟩
  exact fun _ => ⟨0, [], rfl, .inr ⟨rfl, by decide, by decide⟩⟩

/-- With memory above 4 GiB, the boot puts all pages into the first zone and the second zone before
it on the zonelist, and the first allocation panics. -/
theorem allocPages_second_zone :
    ∃ memblock final count booted fault,
      Run.run memblockCall initialMemblock [.add 0x1000 0x2000, .add 0x100000000 0x1000] =
        .ok memblock ∧
      memblockFreeAll buddyHooks memblock 0x100001
        (PageAllocator.initial 0 0x100001 0 (fun zoneType => if zoneType < 2 then 1 else 0)
          fun zoneType => zoneType < 2) = .ok (count, final, booted) ∧
      booted.Supplied 0 0 ∧ allocPages booted 0 0 = .error fault ∧
      ¬ (booted.Supplied 0 0 → booted.Allocates 0 0) := by
  refine ⟨_, _, _, _, _, rfl, rfl, ⟨0, by decide, by decide, 0, le_rfl, by decide, by decide⟩, rfl,
    fun allocates => ?_⟩
  obtain ⟨_, _, _, returns, _⟩ :=
    allocates ⟨0, by decide, by decide, 0, le_rfl, by decide, by decide⟩
  cases returns

end Xlinux
