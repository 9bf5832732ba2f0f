/-
This file studies whether the free lists are coalesced. The buddy test reads the
page type, whose upper four bits are set in a page without a type; in a zeroed
memory map they are clear and no function sets them, so the test always fails
and freeing never merges. The lists stay coalesced exactly as long as no block is
freed next to a free buddy.
-/

import Xlinux.Buddy.Conservation

namespace Xlinux

open Blocks

variable {memMap : MemMap}

/-! ### Page types of a zeroed memory map -/

/-- The page types that the tag operations make from zero. -/
def MemMap.Untyped (memMap : MemMap) : Prop :=
  ∀ pfn, (memMap pfn).pageType = 0 ∨ (memMap pfn).pageType = pgBuddy

theorem untyped_zero : MemMap.Untyped fun _ => zeroPage := fun _ => .inl rfl

namespace MemMap.Untyped

variable (untyped : memMap.Untyped)

include untyped

theorem isBuddy (pfn : Nat) : (memMap pfn).isBuddy = false := by
  rw [Page.isBuddy]
  rcases untyped pfn with type | type <;> rw [type] <;> decide

theorem modify {pfn : Nat} {change : Page → Page}
    (kept : ∀ page : Page, page.pageType = 0 ∨ page.pageType = pgBuddy →
      (change page).pageType = 0 ∨ (change page).pageType = pgBuddy) :
    (memMap.modify pfn change).Untyped := by
  intro other
  by_cases same : other = pfn
  · rw [same, MemMap.modify_self]
    exact kept _ (untyped pfn)
  · rw [MemMap.modify_of_ne _ _ same]
    exact untyped other

theorem setOrder (pfn order : Nat) :
    (memMap.modify pfn fun page => page.setOrder order).Untyped := by
  refine untyped.modify fun page type => .inl ?_
  show page.pageType &&& ~~~pgBuddy = 0
  rcases type with type | type <;> rw [type] <;> decide

theorem cleared (pfn : Nat) :
    (memMap.modify pfn fun page => page.clearBuddy.setPrivate 0).Untyped := by
  refine untyped.modify fun page type => .inr ?_
  show page.pageType ||| pgBuddy = pgBuddy
  rcases type with type | type <;> rw [type] <;> decide

end MemMap.Untyped

/-- Without page types `__free_one_page` merges nothing. -/
theorem mergeLoop_of_untyped {merge : Merge} (untyped : merge.state.memMap.Untyped) (turns : Nat) :
    (mergeLoop turns merge).state = merge.state ∧ (mergeLoop turns merge).pfn = merge.pfn ∧
      (mergeLoop turns merge).order = merge.order := by
  have test : pageIsBuddy merge.state.memMap merge.pfn (findBuddyPfn merge.pfn merge.order)
      merge.order = false := by
    rw [pageIsBuddy, untyped.isBuddy]
    rfl
  cases turns with
  | zero => exact ⟨rfl, rfl, rfl⟩
  | succ turns =>
    rw [mergeLoop]
    split_ifs with below
    · simp only [test, Bool.not_false, if_true, and_self]
    · simp only [and_self]

theorem puts_of_untyped {state : ZoneState} (untyped : state.memMap.Untyped) (pfn order : Nat) :
    Puts pfn order state (freeOnePage state pfn order) := by
  have puts := puts_freeOnePage state pfn order
  obtain ⟨sameState, samePfn, sameOrder⟩ :=
    @mergeLoop_of_untyped ⟨state, pfn, order, 0⟩ untyped (maxOrder - order)
  rwa [sameState, samePfn, sameOrder] at puts

/-! ### Coalesced lists -/

/-- No block and its buddy are both on the list of their order. -/
def Zone.Coalesced (zone : Zone) : Prop :=
  ∀ order < maxOrder - 1, ∀ pfn ∈ zone.list order, findBuddyPfn pfn order ∉ zone.list order

theorem findBuddyPfn_findBuddyPfn (pfn order : Nat) :
    findBuddyPfn (findBuddyPfn pfn order) order = pfn := by
  rw [findBuddyPfn, findBuddyPfn, Nat.xor_assoc, Nat.xor_self, Nat.xor_zero]

theorem findBuddyPfn_ne (pfn order : Nat) : findBuddyPfn pfn order ≠ pfn := by
  intro same
  have zero : pfn ^^^ (pfn ^^^ 1 <<< order) = 0 := by
    rw [← findBuddyPfn, same, Nat.xor_self]
  rw [← Nat.xor_assoc, Nat.xor_self, Nat.zero_xor, Nat.one_shiftLeft] at zero
  exact absurd zero (Nat.two_pow_pos order).ne'

section Lists

variable {before after : ZoneState} {pfn order : Nat}

/-- A block put on a list keeps the lists coalesced exactly when its buddy is not there. -/
theorem Zone.Coalesced.put_iff (coalesced : before.zone.Coalesced)
    (puts : Puts pfn order before after) :
    after.zone.Coalesced ↔
      (order < maxOrder - 1 → findBuddyPfn pfn order ∉ before.zone.list order) := by
  constructor
  · intro kept below free
    refine kept order below pfn (puts.list.mem_iff.mpr List.mem_cons_self) ?_
    exact puts.list.mem_iff.mpr (List.mem_cons_of_mem _ free)
  · intro apart other below page member again
    by_cases same : other = order
    · subst same
      rw [puts.list.mem_iff, List.mem_cons] at member again
      rcases member with rfl | old
      · rcases again with self | old
        · exact findBuddyPfn_ne page other self
        · exact apart below old
      · rcases again with new | oldBuddy
        · refine apart below ?_
          rw [← new, findBuddyPfn_findBuddyPfn]
          exact old
        · exact coalesced other below page old oldBuddy
    · rw [puts.others other same] at member again
      exact coalesced other below page member again

theorem Zone.Coalesced.del (coalesced : before.zone.Coalesced) :
    (delPageFromFreeList before pfn order).zone.Coalesced := by
  intro other below page member again
  rw [list_delPageFromFreeList] at member again
  exact coalesced other below page (List.mem_of_mem_erase member) (List.mem_of_mem_erase again)

end Lists

/-! ### A run of calls -/

/-- The books are in order, no page has a type and the lists are coalesced. -/
structure Scattered (pages : Multiset Nat) (state : ZoneState) (outside : Multiset Nat) : Prop where
  sound : Sound 0 pages state outside
  untyped : state.memMap.Untyped
  coalesced : state.zone.Coalesced

section Takes

variable {pages outside : Multiset Nat} {state : ZoneState} {order page : Nat}

/-- The buddy of a half that is split off is the other half, which is not on a list. -/
theorem Scattered.half (bound : order + 1 < maxOrder) (fit : 2 ^ (order + 1) ∣ page)
    (scattered : Scattered pages state (block (order + 1) page + outside)) :
    Scattered pages
      (addToFreeList (setPageOrder state (page + 2 ^ order) order) (page + 2 ^ order) order)
      (block order page + outside) := by
  refine ⟨scattered.sound.half bound fit, scattered.untyped.setOrder _ _, ?_⟩
  refine (scattered.coalesced.put_iff (puts_addToFreeList _ _ _)).mpr fun _ free => ?_
  have upper : buddy order page = page + 2 ^ order := by
    have halfFit : 2 ^ order ∣ page := (pow_dvd_pow 2 (Nat.le_succ order)).trans fit
    rcases buddy_cases halfFit with ⟨_, upper, _⟩ | ⟨wide, upper, _⟩
    · exact upper
    · -- two neighbours cannot both be multiples of the next power
      rw [upper, Nat.dvd_add_right wide] at fit
      exact absurd (Nat.le_of_dvd (Nat.two_pow_pos order) fit)
        (not_le.mpr (Nat.pow_lt_pow_right Nat.one_lt_two (Nat.lt_succ_self order)))
  rw [← upper, ← findBuddyPfn_eq, findBuddyPfn_findBuddyPfn] at free
  have held : page ∈ block (order + 1) page + outside :=
    Multiset.mem_add.mpr (.inl (first_mem_block _ _))
  refine scattered.sound.not_listed held ?_
  exact Multiset.mem_of_le (block_le_total ((Nat.lt_succ_self order).trans bound) free)
    (first_mem_block _ _)

theorem Scattered.rmqueueSmallest (scattered : Scattered pages state outside) {after : ZoneState}
    (taken : rmqueueSmallest state order = (some page, after)) :
    Scattered pages after (block order page + outside) :=
  rmqueueSmallest_invariant taken scattered.sound.aligned
    (fun _ bound member => ⟨scattered.sound.del bound member, scattered.untyped.cleared _,
      scattered.coalesced.del⟩)
    fun _ _ bound fit before => before.half bound fit

end Takes

/-- After a free the lists are coalesced. -/
def CoalescedAfterFree (_ : Holdings) (call : ZoneCall) (next : Holdings) : Prop :=
  match call with
  | .free _ _ => next.state.zone.Coalesced
  | _ => True

/-- A free does not meet its buddy: the block has the largest order, or its buddy is not on the
list of its order. -/
def FreesAlone (before : Holdings) (call : ZoneCall) (_ : Holdings) : Prop :=
  match call with
  | .free pfn order =>
    order < maxOrder - 1 → findBuddyPfn pfn order ∉ before.state.zone.list order
  | _ => True

section

variable {pages : Multiset Nat} {before next : Holdings} {call : ZoneCall}
  (scattered : Scattered pages before.state before.held) (returns : zoneCall before call = .ok next)

include scattered returns

theorem coalescedAfterFree_iff :
    CoalescedAfterFree before call next ↔ FreesAlone before call next := by
  cases call with
  | free pfn order =>
    obtain ⟨_, rfl⟩ := zoneCall_free_ok.mp returns
    exact scattered.coalesced.put_iff (puts_of_untyped scattered.untyped pfn order)
  | rmqueue order => exact Iff.rfl
  | refill count => exact Iff.rfl

theorem Scattered.zoneCall (after : CoalescedAfterFree before call next) :
    Scattered pages next.state next.held := by
  by_cases frees : ∃ pfn order, call = .free pfn order
  · obtain ⟨pfn, order, rfl⟩ := frees
    have sound : next.Sound 0 pages := Holdings.Sound.zoneCall scattered.sound returns
    obtain ⟨_, rfl⟩ := zoneCall_free_ok.mp returns
    refine ⟨sound, ?_, after⟩
    rw [(puts_of_untyped scattered.untyped pfn order).memMap]
    exact scattered.untyped.setOrder pfn order
  · have takes : ∀ order state outside page after, Scattered pages state outside →
        Xlinux.rmqueueSmallest state order = (some page, after) →
        Scattered pages after (block order page + outside) :=
      fun _ _ _ _ _ before taken => before.rmqueueSmallest taken
    exact zoneCall_invariant takes (fun pfn order same => frees ⟨pfn, order, same⟩) scattered
      returns

end

/-- A zone with empty lists over a zeroed memory map. -/
def zeroedHoldings (held : Multiset Nat) : Holdings :=
    ⟨⟨fun _ => zeroPage, emptyZone held.card⟩, held⟩

/-- Along every run of calls from a zeroed memory map, the lists are coalesced after every free
exactly when no free meets its buddy on the list of its order. -/
theorem coalesced_along_iff {held : Multiset Nat} (distinct : held.Nodup) (calls : List ZoneCall) :
    Run.Along zoneCall CoalescedAfterFree (zeroedHoldings held) calls ↔
      Run.Along zoneCall FreesAlone (zeroedHoldings held) calls := by
  have agree : ∀ before call next, Scattered held before.state before.held →
      zoneCall before call = .ok next →
      (CoalescedAfterFree before call next ↔ FreesAlone before call next) :=
    fun _ _ _ scattered returns => coalescedAfterFree_iff scattered returns
  have preserved : ∀ before call next, Scattered held before.state before.held →
      zoneCall before call = .ok next → CoalescedAfterFree before call next →
      Scattered held next.state next.held :=
    fun _ _ _ scattered returns after => scattered.zoneCall returns after
  have start : Scattered held (zeroedHoldings held).state held :=
    ⟨sound_of_empty distinct (fun _ _ => by decide) untyped_zero.isBuddy, untyped_zero,
      nofun⟩
  exact Run.along_iff agree preserved start calls

/-- A page, then the second next one: the frees do not meet and the lists are coalesced. -/
theorem coalesced_along_iff_apart :
    (block 2 0).Nodup ∧
      Run.Along zoneCall CoalescedAfterFree (zeroedHoldings (block 2 0))
        [.free 0 0, .free 2 0] := by
  have distinct : (block 2 0).Nodup := by decide
  refine ⟨distinct, (coalesced_along_iff distinct _).mpr ?_⟩
  intro first returns
  obtain ⟨_, rfl⟩ := zoneCall_free_ok.mp returns
  refine ⟨fun _ => by decide, fun second again => ?_⟩
  exact ⟨fun _ => by decide, trivial⟩

/-- Two buddy pages freed one after the other are both on the list of order zero. -/
theorem free_pair_not_coalesced :
    ∃ final, Run.run zoneCall (zeroedHoldings (block 1 0)) [.free 0 0, .free 1 0] = .ok final ∧
      final.state.zone.list 0 = [1, 0] ∧ ¬final.state.zone.Coalesced := by
  have returns : Run.run zoneCall (zeroedHoldings (block 1 0)) [.free 0 0, .free 1 0] = .ok _ :=
    Run.run_cons_ok.mpr ⟨_, zoneCall_free_ok.mpr ⟨by decide, rfl⟩,
      Run.run_cons_ok.mpr ⟨_, zoneCall_free_ok.mpr ⟨by decide, rfl⟩, rfl⟩⟩
  refine ⟨_, returns, by decide, fun coalesced => ?_⟩
  exact coalesced 0 (by decide) 1 (by decide) (by decide)

end Xlinux
