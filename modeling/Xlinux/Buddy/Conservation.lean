/-
This file proves that the zone keeps its books. The pages of a zone are divided
into the blocks on the free lists and the pages held outside them; every
operation moves whole aligned blocks between the two and no page is ever counted
twice. A block that carries the buddy tag is on the list of its order, which is
what lets `__free_one_page` take a buddy off a list it has not searched.
-/

import Xlinux.Buddy.Zone
import Xlinux.Lib.Blocks

namespace Xlinux

open Blocks List Function

variable {memMap : MemMap} {holdings next : Holdings}

/-! ### Tags of page descriptors -/

theorem isBuddy_cleared (page : Page) : (page.clearBuddy.setPrivate 0).isBuddy = false := by
  have cleared : ∀ bits : UInt32,
      (bits ||| pgBuddy) &&& (pageTypeBase ||| pgBuddy) ≠ pageTypeBase := by
    intro bits same
    have bit := congrArg (fun word : UInt32 => word.toBitVec.getLsbD 7) same
    simp [pgBuddy, pageTypeBase] at bit
  exact decide_eq_false (cleared page.pageType)

theorem order_setOrder (page : Page) {order : Nat} (bound : order < maxOrder) :
    (page.setOrder order).order = order := by
  have small : order < 2 ^ 32 := bound.trans (by decide)
  have word : order < 2 ^ 64 := bound.trans (by decide)
  rw [Page.order, Page.setOrder, Page.setBuddy, Page.setPrivate, UInt64.toNat_toUInt32,
    UInt64.toNat_ofNat', Nat.mod_eq_of_lt word, Nat.mod_eq_of_lt small]

theorem zoneId_setOrder (page : Page) (order : Nat) : (page.setOrder order).zoneId = page.zoneId :=
  rfl

theorem zoneId_cleared (page : Page) : (page.clearBuddy.setPrivate 0).zoneId = page.zoneId := rfl

theorem MemMap.modify_self (memMap : MemMap) (pfn : Nat) (change : Page → Page) :
    memMap.modify pfn change pfn = change (memMap pfn) :=
  update_self ..

theorem MemMap.modify_of_ne (memMap : MemMap) {pfn other : Nat} (change : Page → Page)
    (different : other ≠ pfn) : memMap.modify pfn change other = memMap other :=
  update_of_ne different ..

/-- A view of the page descriptors that has not changed. -/
def SameView {View : Type} (view : Page → View) (before after : MemMap) : Prop :=
  ∀ pfn, view (after pfn) = view (before pfn)

section View

variable {View : Type} {view : Page → View}

theorem SameView.trans {first second third : MemMap} (before : SameView view first second)
    (after : SameView view second third) : SameView view first third :=
  fun pfn => (after pfn).trans (before pfn)

theorem sameView_modify (memMap : MemMap) (pfn : Nat) {change : Page → Page}
    (kept : ∀ page, view (change page) = view page) :
    SameView view memMap (memMap.modify pfn change) := by
  intro other
  by_cases same : other = pfn
  · rw [same, MemMap.modify_self, kept]
  · rw [MemMap.modify_of_ne _ _ same]

end View

theorem zoneId_modify {pfn : Nat} {change : Page → Page}
    (kept : ∀ page, (change page).zoneId = page.zoneId) (other : Nat) :
    (memMap.modify pfn change other).zoneId = (memMap other).zoneId :=
  sameView_modify memMap pfn kept other

/-- What `page_is_buddy` has checked when it returns true. -/
theorem pageIsBuddy_iff {page buddy order : Nat} :
    pageIsBuddy memMap page buddy order = true ↔
      (memMap buddy).isBuddy = true ∧ (memMap buddy).order = order ∧
        (memMap page).zoneId = (memMap buddy).zoneId := by
  simp only [pageIsBuddy]
  grind

theorem findBuddyPfn_eq (pfn order : Nat) : findBuddyPfn pfn order = buddy order pfn := by
  rw [findBuddyPfn, buddy, Nat.one_shiftLeft]

/-! ### The books of a zone -/

/-- The frame numbers on the free list of one order. -/
def Zone.list (zone : Zone) (order : Nat) : List Nat := (zone.freeArea order).freeList

/-- The pages on the free lists. -/
def Zone.freePages (zone : Zone) : Multiset Nat := total maxOrder zone.list

/-- The books of a zone with the given number: its pages are the pages on the free lists and the
pages outside them. -/
structure Sound (zoneId : Nat) (pages : Multiset Nat) (state : ZoneState)
    (outside : Multiset Nat) : Prop where
  aligned : ∀ order < maxOrder, ∀ pfn ∈ state.zone.list order, 2 ^ order ∣ pfn
  counted : ∀ order < maxOrder, (state.zone.freeArea order).nrFree = (state.zone.list order).length
  account : state.zone.freePages + outside = pages
  distinct : pages.Nodup
  zoned : ∀ pfn ∈ pages, (state.memMap pfn).zoneId = zoneId
  tagged : ∀ pfn, (state.memMap pfn).isBuddy = true → (state.memMap pfn).zoneId = zoneId →
    (state.memMap pfn).order < maxOrder ∧ pfn ∈ state.zone.list (state.memMap pfn).order

section Books

variable {zoneId : Nat} {pages outside : Multiset Nat} {state : ZoneState} {pfn order : Nat}
variable {page : Nat} {after : ZoneState} {merge : Merge}

theorem Sound.nodup_free (sound : Sound zoneId pages state outside) :
    state.zone.freePages.Nodup :=
  (Multiset.nodup_add.mp (sound.account ▸ sound.distinct)).1

theorem Sound.outside_le (sound : Sound zoneId pages state outside) : outside ≤ pages := by
  rw [← sound.account]
  exact Multiset.le_add_left _ _

theorem Sound.not_listed (sound : Sound zoneId pages state outside)
    (held : page ∈ outside) : page ∉ state.zone.freePages := fun free =>
  Multiset.disjoint_left.mp (Multiset.nodup_add.mp (sound.account ▸ sound.distinct)).2.2 free held

/-! ### Moving one block -/

theorem memMap_delPageFromFreeList (state : ZoneState) (pfn order : Nat) :
    (delPageFromFreeList state pfn order).memMap =
      state.memMap.modify pfn fun page => page.clearBuddy.setPrivate 0 :=
  rfl

theorem list_delPageFromFreeList (state : ZoneState) (pfn order other : Nat) :
    (delPageFromFreeList state pfn order).zone.list other = (state.zone.list other).erase pfn := by
  by_cases same : other = order
  · subst same
    simp [delPageFromFreeList, Zone.list, Zone.modify, Zone.listDel]
  · simp [delPageFromFreeList, Zone.list, Zone.modify, Zone.listDel, update_of_ne same]

theorem nrFree_delPageFromFreeList (state : ZoneState) (pfn order other : Nat) :
    ((delPageFromFreeList state pfn order).zone.freeArea other).nrFree =
      (state.zone.freeArea other).nrFree - if other = order then 1 else 0 := by
  by_cases same : other = order
  · subst same
    simp [delPageFromFreeList, Zone.modify, Zone.listDel]
  · simp [delPageFromFreeList, Zone.modify, Zone.listDel, same]

/-- A block on a list of distinct pages is taken off with all its pages. -/
theorem freePages_del (distinct : state.zone.freePages.Nodup) (bound : order < maxOrder)
    (member : pfn ∈ state.zone.list order) : state.zone.freePages =
      block order pfn + (delPageFromFreeList state pfn order).zone.freePages := by
  refine total_of_change bound (fun other otherBound different => ?_) ?_
  · rw [list_delPageFromFreeList, erase_of_not_mem
      (not_mem_of_nodup_total bound distinct otherBound member different)]
  · rw [list_delPageFromFreeList, listed_perm (perm_cons_erase member), listed_cons]

/-- A block taken off its list is outside the lists. -/
theorem Sound.del (sound : Sound zoneId pages state outside) (bound : order < maxOrder)
    (member : pfn ∈ state.zone.list order) :
    Sound zoneId pages (delPageFromFreeList state pfn order) (block order pfn + outside) := by
  have elsewhere : ∀ other < maxOrder, other ≠ order → pfn ∉ state.zone.list other :=
    fun other otherBound different =>
      not_mem_of_nodup_total bound sound.nodup_free otherBound member different
  constructor
  case aligned =>
    intro other otherBound page listed
    rw [list_delPageFromFreeList] at listed
    exact sound.aligned other otherBound page (mem_of_mem_erase listed)
  case counted =>
    intro other otherBound
    rw [list_delPageFromFreeList, nrFree_delPageFromFreeList, sound.counted other otherBound]
    by_cases same : other = order
    · subst same
      have positive := length_pos_of_mem member
      rw [if_pos rfl, length_erase_of_mem member]
      omega
    · rw [if_neg same, erase_of_not_mem (elsewhere other otherBound same), Int.sub_zero]
  case account =>
    rw [← sound.account, freePages_del sound.nodup_free bound member, add_left_comm, add_assoc]
  case distinct => exact sound.distinct
  case zoned =>
    intro page inside
    rw [memMap_delPageFromFreeList, zoneId_modify zoneId_cleared]
    exact sound.zoned page inside
  case tagged =>
    intro page tag zone
    by_cases same : page = pfn
    · -- the tag of the block itself has just been cleared
      rw [memMap_delPageFromFreeList, same, MemMap.modify_self, isBuddy_cleared] at tag
      exact absurd tag Bool.false_ne_true
    · rw [list_delPageFromFreeList]
      rw [memMap_delPageFromFreeList, MemMap.modify_of_ne _ _ same] at tag zone ⊢
      obtain ⟨small, listed⟩ := sound.tagged page tag zone
      exact ⟨small, (mem_erase_of_ne same).mpr listed⟩

/-- What putting a block on a list does, at the head or at the tail, before or after its
descriptor is written. -/
structure Puts (pfn order : Nat) (before after : ZoneState) : Prop where
  memMap : after.memMap = before.memMap.modify pfn fun page => page.setOrder order
  nrFree : ∀ other, (after.zone.freeArea other).nrFree =
    (before.zone.freeArea other).nrFree + if other = order then 1 else 0
  others : ∀ other, other ≠ order → after.zone.list other = before.zone.list other
  list : (after.zone.list order).Perm (pfn :: before.zone.list order)

theorem puts_addToFreeList (state : ZoneState) (pfn order : Nat) :
    Puts pfn order state (addToFreeList (setPageOrder state pfn order) pfn order) where
  memMap := rfl
  nrFree other := by
    by_cases same : other = order <;>
      simp [addToFreeList, setPageOrder, Zone.modify, same]
  others other different := by
    simp [addToFreeList, setPageOrder, Zone.list, Zone.modify, update_of_ne different]
  list := by simp [addToFreeList, setPageOrder, Zone.list, Zone.modify]

theorem puts_addToFreeListTail (state : ZoneState) (pfn order : Nat) :
    Puts pfn order state (addToFreeListTail (setPageOrder state pfn order) pfn order) where
  memMap := rfl
  nrFree other := by
    by_cases same : other = order <;>
      simp [addToFreeListTail, setPageOrder, Zone.modify, same]
  others other different := by
    simp [addToFreeListTail, setPageOrder, Zone.list, Zone.modify, update_of_ne different]
  list := by simp [addToFreeListTail, setPageOrder, Zone.list, Zone.modify]

theorem Puts.freePages {before : ZoneState} (puts : Puts pfn order before after)
    (bound : order < maxOrder) :
    after.zone.freePages = block order pfn + before.zone.freePages := by
  refine total_of_change bound (fun other _ different => puts.others other different) ?_
  rw [listed_perm puts.list, listed_cons]

/-- A block outside the lists that is put on one. -/
theorem Sound.put (sound : Sound zoneId pages state (block order pfn + outside))
    (bound : order < maxOrder) (fit : 2 ^ order ∣ pfn) (puts : Puts pfn order state after) :
    Sound zoneId pages after outside := by
  have listed : ∀ {other page}, page ∈ state.zone.list other → page ∈ after.zone.list other := by
    intro other page member
    by_cases same : other = order
    · subst same
      exact puts.list.mem_iff.mpr (mem_cons_of_mem _ member)
    · rwa [puts.others other same]
  constructor
  case aligned =>
    intro other otherBound page member
    by_cases same : other = order
    · subst same
      rcases mem_cons.mp (puts.list.mem_iff.mp member) with rfl | old
      · exact fit
      · exact sound.aligned other otherBound page old
    · rw [puts.others other same] at member
      exact sound.aligned other otherBound page member
  case counted =>
    intro other otherBound
    rw [puts.nrFree, sound.counted other otherBound]
    by_cases same : other = order
    · subst same
      rw [puts.list.length_eq, if_pos rfl, length_cons, Nat.cast_add, Nat.cast_one]
    · rw [puts.others other same, if_neg same, Int.add_zero]
  case account =>
    rw [← sound.account, puts.freePages bound, add_assoc, add_left_comm]
  case distinct => exact sound.distinct
  case zoned =>
    intro page inside
    rw [puts.memMap, zoneId_modify fun page => zoneId_setOrder page order]
    exact sound.zoned page inside
  case tagged =>
    intro page tag zone
    by_cases same : page = pfn
    · subst same
      rw [puts.memMap, MemMap.modify_self, order_setOrder _ bound]
      exact ⟨bound, puts.list.mem_iff.mpr mem_cons_self⟩
    · rw [puts.memMap, MemMap.modify_of_ne _ _ same] at tag zone ⊢
      obtain ⟨small, member⟩ := sound.tagged page tag zone
      exact ⟨small, listed member⟩

/-! ### Freeing -/

/-- The block that `__free_one_page` carries is outside the lists and aligned. -/
structure Carries (zoneId : Nat) (pages outside : Multiset Nat) (merge : Merge) : Prop where
  sound : Sound zoneId pages merge.state (block merge.order merge.pfn + outside)
  bound : merge.order < maxOrder
  fit : 2 ^ merge.order ∣ merge.pfn

theorem Carries.pfn_mem (carries : Carries zoneId pages outside merge) : merge.pfn ∈ pages :=
  Multiset.mem_of_le ((Multiset.le_add_right _ _).trans carries.sound.outside_le)
    (first_mem_block merge.order merge.pfn)

/-- A page that passes the buddy test is on the list of the order it is tested for. -/
theorem Carries.buddy_listed (carries : Carries zoneId pages outside merge)
    (test : pageIsBuddy merge.state.memMap merge.pfn page merge.order = true) :
    page ∈ merge.state.zone.list merge.order := by
  obtain ⟨tag, sameOrder, sameZone⟩ := pageIsBuddy_iff.mp test
  rw [carries.sound.zoned _ carries.pfn_mem] at sameZone
  rw [← sameOrder]
  exact (carries.sound.tagged page tag sameZone.symm).2

/-- What joining a buddy and noting its number preserve, the loop of `__free_one_page` preserves. -/
theorem mergeLoop_invariant {motive : Merge → Prop}
    (joins : ∀ merge buddyPfn, merge.order < maxOrder - 1 → buddyPfn = buddy merge.order merge.pfn →
      pageIsBuddy merge.state.memMap merge.pfn buddyPfn merge.order = true → motive merge →
      motive ⟨delPageFromFreeList merge.state buddyPfn merge.order, buddyPfn &&& merge.pfn,
        merge.order + 1, buddyPfn⟩)
    (notes : ∀ merge buddyPfn, motive merge → motive { merge with buddyPfn })
    (turns : Nat) (merge : Merge) (start : motive merge) : motive (mergeLoop turns merge) := by
  induction turns generalizing merge with
  | zero => exact start
  | succ turns ih =>
    rw [mergeLoop]
    dsimp only
    split
    case isTrue below =>
      split_ifs with test
      · exact notes merge _ start
      · exact ih _ (joins merge _ below (findBuddyPfn_eq ..) (by simpa using test) start)
    case isFalse => exact start

/-- The buddy joins the carried block. -/
theorem Carries.mergeLoop (turns : Nat) (carries : Carries zoneId pages outside merge) :
    Carries zoneId pages outside (mergeLoop turns merge) := by
  refine mergeLoop_invariant (motive := Carries zoneId pages outside)
    (fun merge _ below same test carries => ?_)
    (fun _ _ carries => ⟨carries.sound, carries.bound, carries.fit⟩) turns merge carries
  subst same
  have taken := carries.sound.del carries.bound (carries.buddy_listed test)
  rw [← add_assoc, add_comm (block _ (buddy _ _)), block_add_buddy carries.fit] at taken
  exact ⟨taken, Nat.lt_pred_iff.mp below, two_pow_succ_dvd_and carries.fit⟩

/-- `__free_one_page` ends by putting the carried block on a list. -/
theorem puts_freeOnePage (state : ZoneState) (pfn order : Nat) :
    Puts (mergeLoop (maxOrder - order) ⟨state, pfn, order, 0⟩).pfn
      (mergeLoop (maxOrder - order) ⟨state, pfn, order, 0⟩).order
      (mergeLoop (maxOrder - order) ⟨state, pfn, order, 0⟩).state
      (freeOnePage state pfn order) := by
  rw [freeOnePage]
  generalize mergeLoop (maxOrder - order) ⟨state, pfn, order, 0⟩ = merge
  split
  · exact puts_addToFreeListTail merge.state merge.pfn merge.order
  · exact puts_addToFreeList merge.state merge.pfn merge.order

theorem Sound.freeOnePage (sound : Sound zoneId pages state (block order pfn + outside))
    (bound : order < maxOrder) (fit : 2 ^ order ∣ pfn) :
    Sound zoneId pages (freeOnePage state pfn order) outside := by
  have carries : Carries zoneId pages outside (mergeLoop (maxOrder - order)
      ⟨state, pfn, order, 0⟩) :=
    Carries.mergeLoop _ ⟨sound, bound, fit⟩
  exact carries.sound.put carries.bound carries.fit (puts_freeOnePage state pfn order)

/-- What neither tags nor orders change, freeing a block does not change. -/
theorem sameView_freeOnePage {View : Type} {view : Page → View}
    (tags : ∀ page order, view (page.setOrder order) = view page)
    (clears : ∀ page : Page, view (page.clearBuddy.setPrivate 0) = view page) (state : ZoneState)
    (pfn order : Nat) : SameView view state.memMap (freeOnePage state pfn order).memMap := by
  refine (mergeLoop_invariant (motive := fun merge => SameView view state.memMap merge.state.memMap)
    (fun _ _ _ _ _ same => same.trans (sameView_modify _ _ clears)) (fun _ _ same => same)
    (maxOrder - order) ⟨state, pfn, order, 0⟩ fun _ => rfl).trans ?_
  rw [(puts_freeOnePage state pfn order).memMap]
  exact sameView_modify _ _ fun page => tags page _

/-! ### Taking -/

/-- What splitting off the upper half of a block preserves, `expand` preserves. -/
theorem expand_invariant {motive : ZoneState → Multiset Nat → Prop} {low high : Nat}
    (halves : ∀ order state, order < high → motive state (block (order + 1) page + outside) →
      motive (addToFreeList (setPageOrder state (page + 2 ^ order) order) (page + 2 ^ order) order)
        (block order page + outside))
    (split : low ≤ high) (start : motive state (block high page + outside)) :
    motive (expand page low high state) (block low page + outside) := by
  induction high generalizing state with
  | zero =>
    obtain rfl : low = 0 := Nat.le_zero.mp split
    exact start
  | succ high ih =>
    rw [expand]
    split_ifs with wide
    · simp only [Nat.one_shiftLeft]
      exact ih (fun order state less => halves order state (less.trans (Nat.lt_succ_self high)))
        (Nat.le_of_lt_succ wide) (halves high state (Nat.lt_succ_self high) start)
    · obtain rfl : low = high + 1 := le_antisymm split (not_lt.mp wide)
      exact start

/-- The upper half of a block outside the lists goes to the list below. -/
theorem Sound.half (bound : order + 1 < maxOrder) (fit : 2 ^ (order + 1) ∣ page)
    (sound : Sound zoneId pages state (block (order + 1) page + outside)) :
    Sound zoneId pages
      (addToFreeList (setPageOrder state (page + 2 ^ order) order) (page + 2 ^ order) order)
      (block order page + outside) := by
  have halfFit : 2 ^ order ∣ page := (pow_dvd_pow 2 (Nat.le_succ order)).trans fit
  rw [block_succ, add_comm (block order page), add_assoc] at sound
  exact sound.put ((Nat.lt_succ_self order).trans bound)
    ((Nat.dvd_add_right halfFit).mpr dvd_rfl) (puts_addToFreeList _ _ _)

/-- What `__rmqueue_smallest` can do: nothing, or split the first block of a list. -/
theorem rmqueueLoop_cases (order turns current : Nat) (state : ZoneState) :
    rmqueueLoop order turns current state = (none, state) ∨
      ∃ found page, current ≤ found ∧ found < current + turns ∧
        (state.zone.list found).head? = some page ∧
        rmqueueLoop order turns current state =
          (some page, Xlinux.expand page order found (delPageFromFreeList state page found)) := by
  induction turns generalizing current with
  | zero => exact .inl rfl
  | succ turns ih =>
    rw [rmqueueLoop]
    cases listEq : (state.zone.freeArea current).freeList with
    | nil =>
      rcases ih (current + 1) with missing | ⟨found, page, low, high, rest⟩
      · exact .inl missing
      · exact .inr ⟨found, page, by omega, by omega, rest⟩
    | cons page tail =>
      refine .inr ⟨current, page, le_rfl, by omega, ?_, rfl⟩
      rw [Zone.list, listEq, head?_cons]

theorem rmqueueSmallest_cases (state : ZoneState) (order : Nat) :
    rmqueueSmallest state order = (none, state) ∨
      ∃ found page, order ≤ found ∧ found < maxOrder ∧ page ∈ state.zone.list found ∧
        rmqueueSmallest state order =
          (some page, Xlinux.expand page order found (delPageFromFreeList state page found)) := by
  rcases rmqueueLoop_cases order (maxOrder - order) order state with
    missing | ⟨found, page, low, high, first, taken⟩
  · exact .inl missing
  · exact .inr ⟨found, page, low, by omega, mem_of_mem_head? first, taken⟩

section

variable (taken : rmqueueSmallest state order = (some page, after))

include taken

/-- A block that is taken is the lower end of a block on a list. -/
theorem rmqueueSmallest_some :
    ∃ found, order ≤ found ∧ found < maxOrder ∧ page ∈ state.zone.list found ∧
      after = expand page order found (delPageFromFreeList state page found) := by
  rcases rmqueueSmallest_cases state order with missing | ⟨found, first, low, bound, member, same⟩
  · rw [missing] at taken
    cases taken
  · rw [same, Prod.mk.injEq, Option.some.injEq] at taken
    obtain ⟨rfl, rfl⟩ := taken
    exact ⟨found, low, bound, member, rfl⟩

/-- What unlinking an aligned block and splitting off the upper half of one preserve, taking a block
preserves. -/
theorem rmqueueSmallest_invariant {motive : ZoneState → Multiset Nat → Prop}
    (aligned : ∀ order < maxOrder, ∀ pfn ∈ state.zone.list order, 2 ^ order ∣ pfn)
    (dels : ∀ order < maxOrder, page ∈ state.zone.list order →
      motive (delPageFromFreeList state page order) (block order page + outside))
    (halves : ∀ order state, order + 1 < maxOrder → 2 ^ (order + 1) ∣ page →
      motive state (block (order + 1) page + outside) →
      motive (addToFreeList (setPageOrder state (page + 2 ^ order) order) (page + 2 ^ order) order)
        (block order page + outside)) :
    motive after (block order page + outside) := by
  obtain ⟨found, low, bound, member, rfl⟩ := rmqueueSmallest_some taken
  refine expand_invariant (motive := motive) (fun order state less => ?_) low
    (dels found bound member)
  exact halves order state ((Nat.succ_le_of_lt less).trans_lt bound)
    ((pow_dvd_pow 2 (Nat.succ_le_of_lt less)).trans (aligned found bound page member))

theorem Sound.rmqueueSmallest (sound : Sound zoneId pages state outside) :
    Sound zoneId pages after (block order page + outside) :=
  rmqueueSmallest_invariant taken sound.aligned
    (fun _ bound member => sound.del bound member)
    (fun _ _ bound fit before => before.half bound fit)

end

theorem rmqueueSmallest_none
    (missing : rmqueueSmallest state order = (none, after)) : after = state := by
  rcases rmqueueSmallest_cases state order with same | ⟨_, _, _, _, _, same⟩
  · rw [same, Prod.mk.injEq] at missing
    exact missing.2.symm
  · rw [same] at missing
    cases missing

theorem rmqueueOrPanic_ok (returns : rmqueueOrPanic state order = .ok (page, after)) :
    rmqueueSmallest state order = (some page, after) := by
  rw [rmqueueOrPanic] at returns
  cases taken : rmqueueSmallest state order with
  | mk found next =>
    cases found with
    | none => simp [taken] at returns
    | some first =>
      rw [taken] at returns
      cases returns
      rfl

/-- What taking a block preserves, the refill preserves: it takes `count` blocks off the free lists
and adds them to the end of its list. -/
theorem rmqueueBulk_invariant {Invariant : ZoneState → Multiset Nat → Prop}
    (takes : ∀ state outside page after, Invariant state outside →
      rmqueueSmallest state order = (some page, after) →
      Invariant after (block order page + outside))
    {count : Nat} {list final : List Nat} (start : Invariant state outside)
    (returns : rmqueueBulk order count list state = .ok (final, after)) :
    ∃ added, final = list ++ added ∧ added.length = count ∧
      Invariant after (listed order added + outside) := by
  induction count generalizing list state outside with
  | zero =>
    cases returns
    exact ⟨[], (append_nil final).symm, rfl, by simpa using start⟩
  | succ count ih =>
    rw [rmqueueBulk] at returns
    cases taken : rmqueueOrPanic state order with
    | error fault => simp [taken] at returns
    | ok result =>
      obtain ⟨page, next⟩ := result
      rw [taken] at returns
      have kept := takes state outside page next start (rmqueueOrPanic_ok taken)
      obtain ⟨added, appended, length, _⟩ := ih kept returns
      refine ⟨page :: added, ?_, by rw [length_cons, length], ?_⟩
      · rw [appended, append_assoc, singleton_append]
      · rwa [listed_cons, add_assoc, add_left_comm]

end Books

/-! ### A run of calls -/

/-- A call on a zone. The refill is `rmqueue_bulk` as `__rmqueue_pcplist` calls it. -/
inductive ZoneCall where
  | free (pfn order : Nat)
  | rmqueue (order : Nat)
  | refill (count : Nat)
  deriving DecidableEq, Repr

/-- A zone, and the pages held outside its free lists, with those on a per-cpu list. -/
structure Holdings where
  state : ZoneState
  held : Multiset Nat

/-- One call. A caller may free an aligned block of an order below `MAX_ORDER` that is held. -/
def zoneCall (holdings : Holdings) : ZoneCall → Except Halt Holdings
  | .free pfn order =>
    if order < maxOrder ∧ 2 ^ order ∣ pfn ∧ block order pfn ≤ holdings.held then
      .ok ⟨freeOnePage holdings.state pfn order, holdings.held - block order pfn⟩
    else .error .misuse
  | .rmqueue order =>
    match rmqueueSmallest holdings.state order with
    | (some page, state) => .ok ⟨state, block order page + holdings.held⟩
    | (none, state) => .ok ⟨state, holdings.held⟩
  | .refill count =>
    match rmqueueBulk 0 count [] holdings.state with
    | .ok (list, state) => .ok ⟨state, listed 0 list + holdings.held⟩
    | .error fault => .error (.fault fault)

/-- The books of the zone agree with what is held. -/
def Holdings.Sound (holdings : Holdings) (zoneId : Nat) (pages : Multiset Nat) : Prop :=
  Xlinux.Sound zoneId pages holdings.state holdings.held

theorem zoneCall_free_ok {pfn order : Nat} :
    zoneCall holdings (.free pfn order) = .ok next ↔
      (order < maxOrder ∧ 2 ^ order ∣ pfn ∧ block order pfn ≤ holdings.held) ∧
        next = ⟨freeOnePage holdings.state pfn order, holdings.held - block order pfn⟩ := by
  by_cases legal : order < maxOrder ∧ 2 ^ order ∣ pfn ∧ block order pfn ≤ holdings.held
  · rw [zoneCall, if_pos legal, Except.ok.injEq, eq_comm, and_iff_right legal]
  · rw [zoneCall, if_neg legal]
    exact ⟨nofun, fun both => absurd both.1 legal⟩

/-- What taking a block preserves, every call that frees nothing preserves. -/
theorem zoneCall_invariant {Invariant : ZoneState → Multiset Nat → Prop}
    (takes : ∀ order state outside page after, Invariant state outside →
      rmqueueSmallest state order = (some page, after) →
      Invariant after (block order page + outside))
    {call : ZoneCall} (keeps : ∀ pfn order, call ≠ .free pfn order)
    (start : Invariant holdings.state holdings.held)
    (returns : zoneCall holdings call = .ok next) : Invariant next.state next.held := by
  cases call with
  | free pfn order => exact absurd rfl (keeps pfn order)
  | rmqueue order =>
    rw [zoneCall] at returns
    cases taken : rmqueueSmallest holdings.state order with
    | mk found after =>
      rw [taken] at returns
      cases found with
      | none =>
        cases returns
        rw [rmqueueSmallest_none taken]
        exact start
      | some page =>
        cases returns
        exact takes order holdings.state holdings.held page after start taken
  | refill count =>
    rw [zoneCall] at returns
    cases taken : rmqueueBulk 0 count [] holdings.state with
    | error fault => simp [taken] at returns
    | ok result =>
      rw [taken] at returns
      cases returns
      obtain ⟨_, rfl, _, kept⟩ := rmqueueBulk_invariant (takes 0) start taken
      exact kept

theorem Holdings.Sound.zoneCall {zoneId : Nat} {pages : Multiset Nat}
    {call : ZoneCall} (sound : holdings.Sound zoneId pages)
    (returns : zoneCall holdings call = .ok next) : next.Sound zoneId pages := by
  by_cases frees : ∃ pfn order, call = .free pfn order
  · obtain ⟨pfn, order, rfl⟩ := frees
    obtain ⟨⟨bound, fit, held⟩, rfl⟩ := zoneCall_free_ok.mp returns
    refine Xlinux.Sound.freeOnePage ?_ bound fit
    rw [add_tsub_cancel_of_le held]
    exact sound
  · have takes : ∀ order state outside page after, Xlinux.Sound zoneId pages state outside →
        rmqueueSmallest state order = (some page, after) →
        Xlinux.Sound zoneId pages after (block order page + outside) :=
      fun _ _ _ _ _ before taken => before.rmqueueSmallest taken
    exact zoneCall_invariant takes (fun pfn order same => frees ⟨pfn, order, same⟩) sound returns

/-- The books of a zone with empty lists and no tagged page are in order. -/
theorem sound_of_empty {held : Multiset Nat} {zoneId : Nat} {managed : Int}
    (distinct : held.Nodup) (zoned : ∀ pfn ∈ held, (memMap pfn).zoneId = zoneId)
    (untagged : ∀ pfn, (memMap pfn).isBuddy = false) :
    (Holdings.mk ⟨memMap, emptyZone managed⟩ held).Sound zoneId held where
  aligned := nofun
  counted _ _ := rfl
  account := zero_add held
  distinct := distinct
  zoned := zoned
  tagged pfn tag := absurd tag (by simp [untagged pfn])

/-- The free lists hold aligned blocks, apart from each other and from what is held, and the
counters are the lengths of the lists. -/
structure Holdings.Consistent (holdings : Holdings) : Prop where
  aligned : ∀ order < maxOrder, ∀ pfn ∈ holdings.state.zone.list order, 2 ^ order ∣ pfn
  distinct : ∀ order < maxOrder, (holdings.state.zone.list order).Nodup
  disjoint : ∀ order < maxOrder, ∀ pfn ∈ holdings.state.zone.list order,
    ∀ other < maxOrder, ∀ second ∈ holdings.state.zone.list other,
      (order, pfn) ≠ (other, second) → Disjoint (block order pfn) (block other second)
  notHeld : ∀ order < maxOrder, ∀ pfn ∈ holdings.state.zone.list order,
    Disjoint (block order pfn) holdings.held
  counted : ∀ order < maxOrder, (holdings.state.zone.freeArea order).nrFree =
    (holdings.state.zone.list order).length

/-- The number of pages on the free lists. -/
def Zone.freeCount (zone : Zone) : Nat :=
  ∑ order ∈ Finset.range maxOrder, (zone.list order).length * 2 ^ order

theorem Zone.freeCount_eq_card (zone : Zone) : zone.freeCount = zone.freePages.card := by
  rw [Zone.freePages, total, Multiset.card_sum]
  exact Finset.sum_congr rfl fun order _ => (card_listed order (zone.list order)).symm

theorem Holdings.Sound.consistent {zoneId : Nat} {pages : Multiset Nat}
    (sound : holdings.Sound zoneId pages) : holdings.Consistent where
  aligned := sound.aligned
  distinct _ bound :=
    nodup_of_nodup_listed (Multiset.nodup_of_le (listed_le_total bound) sound.nodup_free)
  disjoint _ bound _ member _ otherBound _ otherMember different :=
    disjoint_of_nodup_total bound sound.nodup_free otherBound member otherMember different
  notHeld _ bound _ member := Multiset.disjoint_left.mpr fun inBlock inHeld =>
    sound.not_listed inHeld (Multiset.mem_of_le (block_le_total bound member) inBlock)
  counted := sound.counted

theorem Holdings.Sound.count {zoneId : Nat} {pages : Multiset Nat}
    (sound : holdings.Sound zoneId pages) :
    holdings.state.zone.freeCount + holdings.held.card = pages.card := by
  rw [← sound.account, Multiset.card_add, Zone.freeCount_eq_card]

/-- Every run of calls on a zone whose books are in order leaves its free lists consistent and
the number of its pages, free and held, as it was. -/
theorem zoneCall_conserves {zoneId : Nat} {pages : Multiset Nat} {start final : Holdings}
    {calls : List ZoneCall} (sound : start.Sound zoneId pages)
    (ran : Run.run zoneCall start calls = .ok final) :
    final.Consistent ∧ final.state.zone.freeCount + final.held.card =
        start.state.zone.freeCount + start.held.card := by
  have preserved : ∀ (before : Holdings) (call : ZoneCall) (next : Holdings),
      before.Sound zoneId pages → zoneCall before call = .ok next → next.Sound zoneId pages :=
    fun _ _ _ before returns => before.zoneCall returns
  have kept : final.Sound zoneId pages := Run.run_invariant preserved sound ran
  exact ⟨kept.consistent, kept.count.trans sound.count.symm⟩

/-- Two single pages with cleared tags are freed and merge; then the pair is split again. -/
theorem zoneCall_conserves_pair :
    let start : Holdings := ⟨⟨fun _ => ⟨0, 0, 0xffffffff, 0⟩, emptyZone 2⟩, block 1 0⟩
    ∃ final, start.Sound 0 (block 1 0) ∧
      Run.run zoneCall start [.free 0 0, .free 1 0, .rmqueue 0] = .ok final ∧
      final.state.zone.list 0 = [1] ∧ final.Consistent ∧
      final.state.zone.freeCount + final.held.card =
        start.state.zone.freeCount + start.held.card := by
  intro start
  have sound : start.Sound 0 (block 1 0) :=
    sound_of_empty (by decide) (fun _ _ => by decide) (fun _ => by decide)
  let freed : ZoneState := freeOnePage (freeOnePage start.state 0 0) 1 0
  have taken : rmqueueSmallest freed 0 = (some 0, (rmqueueSmallest freed 0).2) :=
    Prod.ext (by decide) rfl
  have returns : Run.run zoneCall start [.free 0 0, .free 1 0, .rmqueue 0] = .ok _ :=
    Run.run_cons_ok.mpr ⟨_, zoneCall_free_ok.mpr ⟨by decide, rfl⟩,
      Run.run_cons_ok.mpr ⟨_, zoneCall_free_ok.mpr ⟨by decide, rfl⟩,
        Run.run_cons_ok.mpr ⟨_, by rw [zoneCall, taken], rfl⟩⟩⟩
  exact ⟨_, sound, returns, by decide, zoneCall_conserves sound returns⟩

end Xlinux
