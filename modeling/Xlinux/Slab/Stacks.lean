/-
This file keeps the books of a cache. Every slab carries a stack of the indices of
its free objects; where that stack lives inside an object, it is the object at the
bottom of the stack, which is handed out last. Objects are taken off the stacks and
given back to them in such a way that what users write into their objects never
reaches a stack that is still needed.
-/

import Xlinux.Slab.Objects

namespace Xlinux

open List Nat
open Function

/-! ### Slots of a slab -/

/-- The bytes of the object with an index. -/
def InSlot (cache : KmemCache) (page idx addr : Nat) : Prop :=
  page + cache.size * idx ≤ addr ∧ addr < page + cache.size * idx + cache.size

section Slots

variable {cache : KmemCache} {page idx other addr : Nat}

theorem InSlot.eq (first : InSlot cache page idx addr) (second : InSlot cache page other addr) :
    idx = other := by
  obtain ⟨_, _⟩ := first
  obtain ⟨_, _⟩ := second
  by_contra different
  rcases lt_or_gt_of_ne different with less | less <;>
  · have := mul_le_mul_left cache.size (succ_le_of_lt less)
    rw [mul_succ] at this
    omega

theorem slot_end_le (less : idx < cache.num) :
    cache.size * idx + cache.size ≤ cache.num * cache.size := by
  have := mul_le_mul_left cache.size (succ_le_of_lt less)
  rwa [mul_comm cache.size cache.num] at this

theorem KmemCache.Sane.objects_le (sane : cache.Sane) :
    cache.num * cache.size ≤ slabBytes cache.gfporder := by
  cases held : cache.objfreelist with
  | true => exact (sane.inside held).2
  | false => exact (le_add_right _ _).trans (sane.behind held)

theorem InSlot.in_slab (sane : cache.Sane) (less : idx < cache.num)
    (inside : InSlot cache page idx addr) :
    page ≤ addr ∧ addr < page + slabBytes cache.gfporder := by
  have slot := slot_end_le less
  have objects := sane.objects_le
  have := inside.1
  have := inside.2
  omega

/-- The page of an object is the first page of its slab: a slab of several pages has one object,
which starts there. -/
theorem virtToHeadPage_slot (sane : cache.Sane) (aligned : 4096 ∣ page) (less : idx < cache.num) :
    virtToHeadPage (page + cache.size * idx) = page := by
  have start : cache.size * idx < 4096 := by
    by_cases several : 0 < cache.gfporder
    · have first : idx = 0 := by
        have := sane.single several
        omega
      rw [first, mul_zero]
      decide
    · have single : slabBytes cache.gfporder = 4096 := by
        rw [pos_iff_ne_zero, not_not] at several
        rw [several]
        rfl
      have slot := slot_end_le less
      have objects := sane.objects_le
      have := sane.size_pos
      omega
  rw [virtToHeadPage]
  omega

end Slots

/-! ### The stack of free indices -/

/-- The memory at the freelist of a page descriptor holds the free indices, from the active count
on. -/
structure Stored (cache : KmemCache) (memory : Memory) (page : Nat) (desc : SlabPage)
    (free : List Nat) : Prop where
  sMem : desc.sMem = page
  active : desc.active + free.length = cache.num
  bounded : ∀ idx ∈ free, idx < cache.num
  distinct : free.Nodup
  stored : ∀ position idx, free[position]? = some idx →
    (memory (desc.freelist + (desc.active + position))).toNat = idx

/-- The freelist is where it belongs: in the object with the last of the free indices, or at the
end of the slab. -/
structure Stacked (cache : KmemCache) (memory : Memory) (page : Nat) (desc : SlabPage)
    (free : List Nat) : Prop extends Stored cache memory page desc free where
  inside : cache.objfreelist = true → desc.freelist = match free.getLast? with
      | some last => page + cache.size * last
      | none => 0
  behind : cache.objfreelist = false → desc.freelist = page + slabBytes cache.gfporder - cache.num

section Stacks

variable {cache : KmemCache} {memory : Memory} {page : Nat} {desc : SlabPage} {free : List Nat}

variable (stacked : Stacked cache memory page desc free)

include stacked

/-- The stack lies in its slab, and in no object that is in use. -/
theorem Stacked.stored_addr (sane : cache.Sane)
    {position : Nat} (bound : position < cache.num) (nonempty : free ≠ []) :
    (page ≤ desc.freelist + position ∧ desc.freelist + position < page + slabBytes cache.gfporder) ∧
      ∀ idx < cache.num, idx ∉ free → ¬InSlot cache page idx (desc.freelist + position) := by
  cases held : cache.objfreelist with
  | true =>
    have home : desc.freelist = page + cache.size * free.getLast nonempty := by
      have home := stacked.inside held
      rwa [getLast?_eq_getLast_of_ne_nil nonempty] at home
    have member : free.getLast nonempty ∈ free := getLast_mem nonempty
    have less := stacked.bounded _ member
    have inside : InSlot cache page (free.getLast nonempty) (desc.freelist + position) := by
      have := (sane.inside held).1
      rw [InSlot]
      omega
    refine ⟨inside.in_slab sane less, fun idx _ used slot => ?_⟩
    rw [slot.eq inside] at used
    exact used member
  | false =>
    have home := stacked.behind held
    have room := sane.behind held
    refine ⟨by omega, fun idx less _ slot => ?_⟩
    have slotEnd := slot_end_le less
    have := slot.2
    omega

/-- A stack is kept by every write outside of it. -/
theorem Stacked.congr {after : Memory} (same : ∀ position < cache.num, free ≠ [] →
      after (desc.freelist + position) = memory (desc.freelist + position)) :
    Stacked cache after page desc free where
  toStored := { stacked.toStored with
    stored := fun position idx found => by
      have bound := (List.getElem?_eq_some_iff.mp found).1
      have total := stacked.active
      rw [same (desc.active + position) (by omega) (ne_nil_of_length_pos (by omega))]
      exact stacked.stored position idx found }
  inside := stacked.inside
  behind := stacked.behind

theorem Stacked.freelist_ne_zero (sane : cache.Sane) (positive : 0 < page) (nonempty : free ≠ []) :
    desc.freelist ≠ 0 := by
  have := (stacked.stored_addr sane sane.num_pos nonempty).1
  omega

end Stacks

/-! ### Taking objects off a stack -/

/-- The state after the objects with some indices have been moved to the per-cpu array. -/
def takeObjs (cache : KmemCache) (slabs : Slabs) (page : Nat) (indices : List Nat) : Slabs :=
  { slabs with
    pages := update slabs.pages page
      { slabs.pages page with active := (slabs.pages page).active + indices.length }
    cpuCache := { slabs.cpuCache with
      entry := slabs.cpuCache.entry ++ indices.map fun idx => page + cache.size * idx } }

section Taking

variable {cache : KmemCache} {slabs : Slabs} {page : Nat}

theorem pages_takeObjs (indices : List Nat) :
    (takeObjs cache slabs page indices).pages = update slabs.pages page
      { slabs.pages page with active := (slabs.pages page).active + indices.length } :=
  rfl

theorem takeObjs_nil : takeObjs cache slabs page [] = slabs := by
  simp [takeObjs]

theorem Stored.slabGetObj {idx : Nat} {rest : List Nat}
    (stored : Stored cache slabs.memory page (slabs.pages page) (idx :: rest))
    (nonzero : (slabs.pages page).freelist ≠ 0) :
    slabGetObj cache slabs page = .ok (page + cache.size * idx,
      slabs.modifyPage page fun desc => { desc with active := desc.active + 1 }) := by
  have top : (slabs.memory ((slabs.pages page).freelist + (slabs.pages page).active)).toNat = idx :=
    stored.stored 0 idx rfl
  simp only [Xlinux.slabGetObj, getFreeObj, if_neg nonzero, top, indexToObj, stored.sMem]
  rfl

/-- `alloc_block` takes the upper indices of the stack, at most a batch. -/
theorem Stored.allocBlockLoop {free : List Nat}
    (stored : Stored cache slabs.memory page (slabs.pages page) free)
    (nonzero : free ≠ [] → (slabs.pages page).freelist ≠ 0) (batchcount : Nat) :
    ∃ left : Int, left ≤ batchcount - (free.take batchcount).length ∧
      allocBlockLoop cache page batchcount slabs =
        .ok (left, takeObjs cache slabs page (free.take batchcount)) := by
  induction batchcount generalizing slabs free with
  | zero =>
    refine ⟨_, ?_, by rw [allocBlockLoop, take_zero, takeObjs_nil]⟩
    split <;> simp
  | succ batchcount ih =>
    rw [allocBlockLoop]
    have total := stored.active
    cases free with
    | nil =>
      rw [length_nil] at total
      rw [if_neg (by omega), take_nil, takeObjs_nil]
      exact ⟨_, by simp, rfl⟩
    | cons idx rest =>
      rw [length_cons] at total
      rw [if_pos (by omega), stored.slabGetObj (nonzero (cons_ne_nil _ _))]
      let next := pushEntry (slabs.modifyPage page fun desc =>
        { desc with active := desc.active + 1 }) (page + cache.size * idx)
      have desc : next.pages page =
          { slabs.pages page with active := (slabs.pages page).active + 1 } := by
        simp [next, pushEntry, Slabs.modifyPage]
      have rest : Stored cache next.memory page (next.pages page) rest := by
        rw [desc]
        exact
          { sMem := stored.sMem
            active := show (slabs.pages page).active + 1 + rest.length = cache.num by omega
            bounded := (forall_mem_cons.mp stored.bounded).2
            distinct := (nodup_cons.mp stored.distinct).2
            stored := fun position other found => by
              have := stored.stored (position + 1) other (by simpa using found)
              rwa [add_comm position, ← add_assoc (slabs.pages page).active] at this }
      obtain ⟨left, _, taken⟩ := ih rest fun _ => by
        rw [desc]
        exact nonzero (cons_ne_nil _ _)
      refine ⟨left, ?_, ?_⟩
      · rw [take_succ_cons, length_cons]
        omega
      · refine Eq.trans taken ?_
        simp [next, takeObjs, pushEntry, Slabs.modifyPage, add_assoc, add_comm 1]

end Taking

/-! ### The books of a cache -/

/-- The list that a slab with an active count belongs on. -/
def listFor (cache : KmemCache) (active : Nat) : SlabList :=
  if active = 0 then .slabsFree else if active = cache.num then .slabsFull else .slabsPartial

/-- A slab of the cache. -/
def Slabs.Listed (slabs : Slabs) (page : Nat) : Prop := ∃ list, page ∈ slabs.node.lists list

/-- An object that is not free: it has left the stack of its slab. -/
def Slabs.Used (slabs : Slabs) (cache : KmemCache) (free : Nat → List Nat) (objp : Nat) : Prop :=
  ∃ page idx, slabs.Listed page ∧ idx < cache.num ∧ idx ∉ free page ∧ objp = page + cache.size * idx

/-- The slabs lie apart, are on the lists that match their active counts and have their stacks in
order, and the objects that are out are different and have left their stacks. -/
structure Tidy (cache : KmemCache) (slabs : Slabs) (free : Nat → List Nat) (out : List Nat) :
    Prop where
  aligned : ∀ page, slabs.Listed page → 4096 ∣ page ∧ 0 < page
  apart : ∀ page other, slabs.Listed page → slabs.Listed other → page ≠ other →
    page + slabBytes cache.gfporder ≤ other ∨ other + slabBytes cache.gfporder ≤ page
  filed : ∀ list, ∀ page ∈ slabs.node.lists list, list = listFor cache (slabs.pages page).active
  nodup : ∀ list, (slabs.node.lists list).Nodup
  freeSlabs : slabs.node.freeSlabs = (slabs.node.lists .slabsFree).length
  stacked : ∀ page, slabs.Listed page →
    Stacked cache slabs.memory page (slabs.pages page) (free page)
  distinct : out.Nodup
  used : ∀ objp ∈ out, slabs.Used cache free objp

theorem Tidy.perm {cache : KmemCache} {slabs : Slabs} {free : Nat → List Nat} {out other : List Nat}
    (tidy : Tidy cache slabs free out) (same : out.Perm other) : Tidy cache slabs free other :=
  { tidy with
    distinct := same.nodup_iff.mp tidy.distinct
    used := fun objp member => tidy.used objp (same.mem_iff.mpr member) }

/-- The slabs on the three lists. -/
def KmemCacheNode.slabs (node : KmemCacheNode) : List Nat :=
  node.lists .slabsPartial ++ (node.lists .slabsFull ++ node.lists .slabsFree)

theorem mem_slabs {slabs : Slabs} {page : Nat} : page ∈ slabs.node.slabs ↔ slabs.Listed page := by
  simp only [KmemCacheNode.slabs, mem_append]
  constructor
  · rintro (partly | full | free) <;> exact ⟨_, by assumption⟩
  · rintro ⟨list, member⟩
    cases list <;> simp [member]

/-- No slab is on two lists, since its active count decides which list it is on. -/
theorem Tidy.nodup_slabs {cache : KmemCache} {slabs : Slabs} {free : Nat → List Nat}
    {out : List Nat} (tidy : Tidy cache slabs free out) : slabs.node.slabs.Nodup := by
  have once : ∀ {first second : SlabList}, first ≠ second → ∀ page ∈ slabs.node.lists first,
      ∀ other ∈ slabs.node.lists second, page ≠ other := by
    rintro first second different page member _ otherMember rfl
    exact different ((tidy.filed first page member).trans (tidy.filed second page otherMember).symm)
  refine nodup_append.mpr ⟨tidy.nodup _, nodup_append.mpr
    ⟨tidy.nodup _, tidy.nodup _, once (by decide)⟩, fun page member => ?_⟩
  exact forall_mem_append.mpr ⟨once (by decide) page member, once (by decide) page member⟩

/-- The node after a slab has been taken off its list and put on another one. -/
structure Refiled (before after : KmemCacheNode) (page : Nat) (target : SlabList) : Prop where
  mem : ∀ list other, other ∈ after.lists list ↔
    other = page ∧ list = target ∨ other ≠ page ∧ other ∈ before.lists list
  nodup : ∀ list, (after.lists list).Nodup
  freeLength : ((after.lists .slabsFree).length : Int) = (before.lists .slabsFree).length -
    (if page ∈ before.lists .slabsFree then 1 else 0) + if target = .slabsFree then 1 else 0

section Filing

variable {node after : KmemCacheNode} {page : Nat} {target : SlabList}

section

variable (nodup : ∀ list, (node.lists list).Nodup)

include nodup

theorem refiled_of_perm (same : ∀ list, (after.lists list).Perm
      (if list = target then page :: (node.lists list).erase page
        else (node.lists list).erase page)) :
    Refiled node after page target where
  mem list other := by
    rw [(same list).mem_iff]
    by_cases here : list = target
    · simp only [here, if_true, mem_cons, (nodup target).mem_erase_iff, and_true]
    · simp only [here, if_false, (nodup list).mem_erase_iff, and_false, false_or]
  nodup list := by
    rw [(same list).nodup_iff]
    have erased := (nodup list).erase page
    split
    · exact nodup_cons.mpr ⟨fun member => ((nodup list).mem_erase_iff.mp member).1 rfl, erased⟩
    · exact erased
  freeLength := by
    rw [(same .slabsFree).length_eq]
    grind

theorem refiled_listAdd (page : Nat) (target : SlabList) {other : KmemCacheNode}
    (lists : other.lists = node.lists) :
    Refiled node ((other.listDel page).listAdd page target) page target := by
  refine refiled_of_perm nodup fun list => ?_
  by_cases here : list = target
  · subst here
    simp [KmemCacheNode.listAdd, KmemCacheNode.listDel, lists]
  · simp [KmemCacheNode.listAdd, KmemCacheNode.listDel, lists, here]

end

theorem Refiled.listed_iff {slabs next : Slabs} (refiled : Refiled slabs.node next.node page target)
    (other : Nat) : next.Listed other ↔ other = page ∨ slabs.Listed other := by
  constructor
  · rintro ⟨list, member⟩
    rcases (refiled.mem list other).mp member with ⟨same, _⟩ | ⟨_, before⟩
    · exact .inl same
    · exact .inr ⟨list, before⟩
  · intro either
    rcases eq_or_ne other page with rfl | different
    · exact ⟨target, (refiled.mem target other).mpr (.inl ⟨rfl, rfl⟩)⟩
    · obtain ⟨list, member⟩ := either.resolve_left different
      exact ⟨list, (refiled.mem list other).mpr (.inr ⟨different, member⟩)⟩

end Filing

section Changes

variable {cache : KmemCache} {slabs after : Slabs} {free : Nat → List Nat} {out : List Nat}
  {page : Nat}
variable {stack : List Nat} {objp : Nat}

theorem inSlot_start (sane : cache.Sane) (page idx : Nat) :
    InSlot cache page idx (page + cache.size * idx) :=
  ⟨le_rfl, Nat.lt_add_of_pos_right sane.size_pos⟩

/-- A place for a slab: it is aligned, and apart from the other slabs. -/
structure Slabs.Place (slabs : Slabs) (cache : KmemCache) (page : Nat) : Prop where
  aligned : 4096 ∣ page ∧ 0 < page
  apart : ∀ other, slabs.Listed other → other ≠ page →
    page + slabBytes cache.gfporder ≤ other ∨ other + slabBytes cache.gfporder ≤ page

/-- An address of an object determines its slab and its index. -/
theorem Slabs.Place.object_eq (sane : cache.Sane) {other idx otherIdx addr : Nat}
    (place : slabs.Place cache page) (otherListed : slabs.Listed other) (less : idx < cache.num)
    (otherLess : otherIdx < cache.num) (slot : InSlot cache page idx addr)
    (otherSlot : InSlot cache other otherIdx addr) : other = page ∧ otherIdx = idx := by
  have same : other = page := by
    by_contra different
    have := slot.in_slab sane less
    have := otherSlot.in_slab sane otherLess
    have := place.apart other otherListed different
    omega
  subst same
  exact ⟨rfl, otherSlot.eq slot⟩

/-- Objects stay out of the stacks when no stack gets their index. -/
theorem Slabs.Used.change {target : SlabList} (used : slabs.Used cache free objp)
    (refiled : Refiled slabs.node after.node page target)
    (kept : slabs.Listed page → ∀ idx, idx ∉ free page → objp = page + cache.size * idx →
      idx ∉ stack) :
    after.Used cache (update free page stack) objp := by
  obtain ⟨other, idx, member, less, gone, rfl⟩ := used
  refine ⟨other, idx, (refiled.listed_iff other).mpr (.inr member), less, ?_, rfl⟩
  rcases eq_or_ne other page with rfl | different
  · rw [update_self]
    exact kept member idx gone rfl
  · rwa [update_of_ne different]

theorem fixupSlabList_eq (cache : KmemCache) (slabs : Slabs) (page : Nat) :
    fixupSlabList cache slabs page = { slabs with
      node := (slabs.node.listDel page).listAdd page
        (if (slabs.pages page).active = cache.num then .slabsFull else .slabsPartial)
      pages := update slabs.pages page { slabs.pages page with
        freelist := if (slabs.pages page).active = cache.num ∧ cache.objfreelist = true then 0
          else (slabs.pages page).freelist } } := by
  have same : slabs.pages = update slabs.pages page
      { slabs.pages page with freelist := (slabs.pages page).freelist } :=
    (update_eq_self page slabs.pages).symm
  unfold fixupSlabList
  by_cases full : (slabs.pages page).active = cache.num
  · cases held : cache.objfreelist with
    | true =>
      rw [if_pos full, if_pos rfl, if_pos full, if_pos ⟨full, rfl⟩]
      rfl
    | false =>
      rw [if_pos full, if_neg Bool.false_ne_true, if_pos full,
        if_neg (fun both => Bool.false_ne_true both.2), ← same]
  · rw [if_neg full, if_neg full, if_neg (fun both => full both.1), ← same]

/-- The stack after its upper indices are taken, once the slab has been filed. -/
theorem Stacked.take {memory : Memory} {desc : SlabPage}
    (stacked : Stacked cache memory page desc stack) (count : Nat) :
    Stacked cache memory page { desc with
        active := desc.active + (stack.take count).length
        freelist := if desc.active + (stack.take count).length = cache.num ∧
          cache.objfreelist = true then 0 else desc.freelist }
      (stack.drop count) := by
  have total := stacked.active
  have split : (stack.take count).length + (stack.drop count).length = stack.length := by
    rw [← length_append, take_append_drop]
  constructor
  case toStored =>
    refine ⟨stacked.sMem, ?_, ?_, ?_, ?_⟩
    · show desc.active + (stack.take count).length + (stack.drop count).length = cache.num
      omega
    · exact fun idx member => stacked.bounded idx (mem_of_mem_drop member)
    · exact stacked.distinct.sublist (drop_sublist count stack)
    · intro position idx found
      have inside := (List.getElem?_eq_some_iff.mp found).1
      rw [getElem?_drop] at found
      have taken : (stack.take count).length = count := by
        rw [length_take]
        rw [length_drop] at inside
        omega
      rw [if_neg (by rintro ⟨full, _⟩; omega), taken, add_assoc]
      exact stacked.stored (count + position) idx found
  case inside =>
    intro held
    by_cases full : desc.active + (stack.take count).length = cache.num
    · have empty : stack.drop count = [] := eq_nil_of_length_eq_zero (by omega)
      rw [if_pos ⟨full, held⟩, empty]
      rfl
    · rw [if_neg (fun both => full both.1), stacked.inside held]
      have last : (stack.drop count).getLast? = stack.getLast? := by
        rw [getLast?_drop, if_neg (by rw [length_take] at split full; omega)]
      rw [last]
  case behind =>
    intro held
    rw [if_neg (by rintro ⟨_, inside⟩; rw [held] at inside; cases inside)]
    exact stacked.behind held

/-- A stack without some index is not full. -/
theorem Stored.active_pos {memory : Memory} {desc : SlabPage} {idx : Nat}
    (stored : Stored cache memory page desc stack) (less : idx < cache.num) (used : idx ∉ stack) :
    0 < desc.active := by
  have more : (idx :: stack).Nodup := nodup_cons.mpr ⟨used, stored.distinct⟩
  have inside : idx :: stack ⊆ range cache.num := by
    rw [cons_subset, mem_range]
    exact ⟨less, fun other member => mem_range.mpr (stored.bounded other member)⟩
  have length := (subperm_of_subset more inside).length_le
  rw [length_cons, length_range] at length
  have total := stored.active
  omega

variable (tidy : Tidy cache slabs free out)

include tidy

theorem Tidy.place (listed : slabs.Listed page) : slabs.Place cache page :=
  ⟨tidy.aligned page listed, fun other inside different =>
    tidy.apart page other listed inside different.symm⟩

/-- A slab whose stack is not in a changed part of memory. -/
theorem Tidy.stacked_of_frame (sane : cache.Sane) {memory : Memory} (listed : slabs.Listed page)
    (frame : ∀ addr, page ≤ addr → addr < page + slabBytes cache.gfporder →
      (∀ idx < cache.num, idx ∉ free page → ¬InSlot cache page idx addr) →
      memory addr = slabs.memory addr) :
    Stacked cache memory page (slabs.pages page) (free page) := by
  have stacked := tidy.stacked page listed
  refine stacked.congr fun position bound nonempty => ?_
  obtain ⟨⟨low, high⟩, outside⟩ := stacked.stored_addr sane bound nonempty
  exact frame _ low high outside

/-- A slab gets another stack and list; the others stay as they are. -/
theorem Tidy.change {nextOut : List Nat} (place : slabs.Place cache page)
    (others : ∀ other, other ≠ page → after.pages other = slabs.pages other)
    (refiled : Refiled slabs.node after.node page (listFor cache (after.pages page).active))
    (freeSlabs : after.node.freeSlabs = (after.node.lists .slabsFree).length)
    (stacked : Stacked cache after.memory page (after.pages page) stack)
    (frame : ∀ other, other ≠ page → slabs.Listed other →
      Stacked cache after.memory other (slabs.pages other) (free other))
    (distinct : nextOut.Nodup)
    (used : ∀ objp ∈ nextOut, after.Used cache (update free page stack) objp) :
    Tidy cache after (update free page stack) nextOut where
  aligned other member := by
    rcases (refiled.listed_iff other).mp member with rfl | before
    · exact place.aligned
    · exact tidy.aligned other before
  apart first second member otherMember different := by
    rcases (refiled.listed_iff first).mp member with rfl | before <;>
      rcases (refiled.listed_iff second).mp otherMember with rfl | otherBefore
    · exact absurd rfl different
    · exact place.apart second otherBefore different.symm
    · exact (place.apart first before different).symm
    · exact tidy.apart first second before otherBefore different
  filed list other member := by
    rcases (refiled.mem list other).mp member with ⟨rfl, rfl⟩ | ⟨different, before⟩
    · rfl
    · rw [others other different]
      exact tidy.filed list other before
  nodup := refiled.nodup
  freeSlabs := freeSlabs
  stacked other member := by
    rcases eq_or_ne other page with rfl | same
    · rwa [update_self]
    · rw [update_of_ne same, others other same]
      exact frame other same (((refiled.listed_iff other).mp member).resolve_left same)
  distinct := distinct
  used := used

/-! ### Taking objects and filing the slab -/

/-- A slab with free objects, which may be a new one, gives some of them to the per-cpu array and is
filed again. -/
theorem Tidy.take (sane : cache.Sane) (count : Nat) (node : KmemCacheNode)
    (place : slabs.Place cache page) {memory : Memory} {desc : SlabPage}
    (stacked : Stacked cache memory page desc stack) (old : slabs.Listed page → free page = stack)
    (frame : ∀ addr, ¬(page ≤ addr ∧ addr < page + slabBytes cache.gfporder) →
      memory addr = slabs.memory addr)
    (positive : 0 < count) (nonempty : stack ≠ []) (lists : node.lists = slabs.node.lists)
    (freeSlabs : node.freeSlabs =
      slabs.node.freeSlabs - if page ∈ slabs.node.lists .slabsFree then 1 else 0) :
    let next := fixupSlabList cache (takeObjs cache { slabs with
      memory
      pages := update slabs.pages page desc
      node } page (stack.take count)) page
    Tidy cache next (update free page (stack.drop count))
        (out ++ (stack.take count).map fun idx => page + cache.size * idx) ∧
      ∀ other, next.Listed other ↔ other = page ∨ slabs.Listed other := by
  generalize movedEq : takeObjs cache _ page (stack.take count) = moved
  have descEq : moved.pages page =
      { desc with active := desc.active + (stack.take count).length } := by
    simp only [← movedEq, pages_takeObjs, update_self]
  have some : 0 < (stack.take count).length := by
    rw [length_take]
    have := length_pos_of_ne_nil nonempty
    omega
  -- the slab is not empty any more, so it goes to one of the two other lists
  have target : listFor cache ((fixupSlabList cache moved page).pages page).active =
      if (moved.pages page).active = cache.num then .slabsFull else .slabsPartial := by
    simp only [fixupSlabList_eq, update_self]
    rw [listFor, if_neg]
    rw [descEq]
    show desc.active + (stack.take count).length ≠ 0
    omega
  have notFree : listFor cache ((fixupSlabList cache moved page).pages page).active ≠
      .slabsFree := by
    rw [target]
    split <;> decide
  have refiled : Refiled slabs.node (fixupSlabList cache moved page).node page
      (listFor cache ((fixupSlabList cache moved page).pages page).active) := by
    rw [target, fixupSlabList_eq, ← movedEq]
    exact refiled_listAdd tidy.nodup page _ lists
  refine ⟨tidy.change place ?_ refiled ?_ ?_ ?_ ?_ ?_, refiled.listed_iff⟩
  · intro other different
    simp only [fixupSlabList_eq, update_of_ne different, ← movedEq, pages_takeObjs]
  · rw [refiled.freeLength, if_neg notFree, Int.add_zero, ← tidy.freeSlabs, ← freeSlabs,
      fixupSlabList_eq, ← movedEq]
    rfl
  · simp only [fixupSlabList_eq, update_self, descEq]
    rw [← movedEq]
    exact stacked.take count
  · intro other different member
    rw [fixupSlabList_eq, ← movedEq]
    refine tidy.stacked_of_frame sane member fun addr low high _ => frame addr ?_
    have := place.apart other member different
    omega
  · -- an object that is out has left the stack, so it is not taken again
    refine nodup_append.mpr ⟨tidy.distinct, ?_, ?_⟩
    · refine List.Nodup.map (fun idx other same => ?_)
        (stacked.distinct.sublist (take_sublist count stack))
      exact Nat.eq_of_mul_eq_mul_left sane.size_pos (add_left_cancel same)
    · rintro objp member _ takenMember rfl
      obtain ⟨idx, inTake, same⟩ := mem_map.mp takenMember
      have inStack : idx ∈ stack := mem_of_mem_take inTake
      obtain ⟨other, otherIdx, otherListed, less, gone, rfl⟩ := tidy.used objp member
      obtain ⟨rfl, rfl⟩ := place.object_eq sane otherListed (stacked.bounded idx inStack) less
        (same ▸ inSlot_start sane page idx) (inSlot_start sane other otherIdx)
      rw [old otherListed] at gone
      exact gone inStack
  · intro objp member
    rcases mem_append.mp member with before | new
    · refine (tidy.used objp before).change refiled fun listed idx gone _ inDrop => ?_
      rw [old listed] at gone
      exact gone (mem_of_mem_drop inDrop)
    · obtain ⟨idx, inTake, rfl⟩ := mem_map.mp new
      have inStack : idx ∈ stack := mem_of_mem_take inTake
      refine ⟨page, idx, (refiled.listed_iff page).mpr (.inl rfl), stacked.bounded idx inStack,
        ?_, rfl⟩
      rw [update_self]
      have split := stacked.distinct
      rw [← take_append_drop count stack, nodup_append] at split
      exact fun inDrop => split.2.2 idx inTake idx inDrop rfl

/-! ### Giving an object back to its stack -/

/-- The freelist after an index is pushed, as `slab_put_obj` chooses it. -/
def putFreelist (cache : KmemCache) (page : Nat) (desc : SlabPage) (idx : Nat) : Nat :=
  if desc.freelist = 0 then page + cache.size * idx else desc.freelist

omit tidy in
/-- The stack after the index of an object is pushed on it. -/
theorem Stacked.put (sane : cache.Sane) (positive : 0 < page) {memory : Memory} {desc : SlabPage}
    {idx : Nat} (stacked : Stacked cache memory page desc stack)
    (less : idx < cache.num) (used : idx ∉ stack) :
    Stacked cache (update memory (putFreelist cache page desc idx + (desc.active - 1))
        (UInt8.ofNat idx)) page
      { desc with active := desc.active - 1, freelist := putFreelist cache page desc idx }
      (idx :: stack) := by
  have total := stacked.active
  have room := stacked.active_pos less used
  have kept : stack ≠ [] → putFreelist cache page desc idx = desc.freelist := fun nonempty =>
    if_neg (stacked.freelist_ne_zero sane positive nonempty)
  constructor
  case toStored =>
    refine ⟨stacked.sMem, ?_, ?_, nodup_cons.mpr ⟨used, stacked.distinct⟩, ?_⟩
    · show desc.active - 1 + (idx :: stack).length = cache.num
      rw [length_cons]
      omega
    · exact forall_mem_cons.mpr ⟨less, stacked.bounded⟩
    · intro position other found
      cases position with
      | zero =>
        obtain rfl : idx = other := Option.some.inj found
        have byte : idx < 256 := lt_succ_of_le (less.le.trans sane.num_le)
        rw [add_zero, update_self, UInt8.toNat_ofNat', mod_eq_of_lt byte]
      | succ position =>
        rw [getElem?_cons_succ] at found
        have inside := (List.getElem?_eq_some_iff.mp found).1
        show (update memory _ _ (putFreelist cache page desc idx +
          (desc.active - 1 + (position + 1)))).toNat = other
        rw [update_of_ne (by omega), kept (ne_nil_of_length_pos (by omega)),
          show desc.active - 1 + (position + 1) = desc.active + position by omega]
        exact stacked.stored position other found
  case inside =>
    intro held
    cases stack with
    | nil => exact if_pos (stacked.inside held)
    | cons next rest =>
      exact (kept (cons_ne_nil _ _)).trans (stacked.inside held)
  case behind =>
    intro held
    have home := stacked.behind held
    have bytes := sane.behind held
    exact (if_neg (by omega)).trans home

/-- The node after `free_block` has filed a slab with an active count. -/
def putNode (node : KmemCacheNode) (page active : Nat) : KmemCacheNode :=
  if active = 0 then
    { (node.listDel page).listAdd page .slabsFree with freeSlabs := node.freeSlabs + 1 }
  else (node.listDel page).listAddTail page .slabsPartial

omit tidy in
theorem freeBlockObj_eq (sane : cache.Sane) {idx : Nat} (aligned : 4096 ∣ page)
    (less : idx < cache.num) (start : (slabs.pages page).sMem = page) :
    freeBlockObj cache slabs (page + cache.size * idx) =
      { memory := update slabs.memory (putFreelist cache page (slabs.pages page) idx +
          ((slabs.pages page).active - 1)) (UInt8.ofNat idx)
        pages := update slabs.pages page { slabs.pages page with
          active := (slabs.pages page).active - 1
          freelist := putFreelist cache page (slabs.pages page) idx }
        node := putNode slabs.node page ((slabs.pages page).active - 1)
        cpuCache := slabs.cpuCache } := by
  simp only [freeBlockObj, virtToHeadPage_slot sane aligned less, slabPutObj, setFreeObj,
    Slabs.modifyPage, objToIndex, start,
    Nat.add_sub_cancel_left, Nat.mul_div_cancel_left _ sane.size_pos, update_self, putNode]
  split <;> rfl

/-- A slab that loses a used object is not full. -/
theorem refiled_putNode (page : Nat) {active : Nat} (notFull : active < cache.num) :
    Refiled slabs.node (putNode slabs.node page active) page (listFor cache active) := by
  unfold putNode listFor
  rw [if_neg (Nat.ne_of_lt notFull)]
  split_ifs
  · have refiled := refiled_listAdd tidy.nodup page .slabsFree rfl
    exact ⟨refiled.mem, refiled.nodup, refiled.freeLength⟩
  · refine refiled_of_perm tidy.nodup fun list => ?_
    by_cases here : list = .slabsPartial
    · subst here
      simp [KmemCacheNode.listAddTail, KmemCacheNode.listDel]
    · simp [KmemCacheNode.listAddTail, KmemCacheNode.listDel, here]

/-- An object that is out is given back to the stack of its slab. -/
theorem Tidy.put (sane : cache.Sane) (member : objp ∈ out) :
    (∃ after, Tidy cache (freeBlockObj cache slabs objp) after (out.erase objp)) ∧
      ∀ other, (freeBlockObj cache slabs objp).Listed other ↔ slabs.Listed other := by
  obtain ⟨page, idx, listed, less, gone, rfl⟩ := tidy.used objp member
  have stacked := tidy.stacked page listed
  obtain ⟨aligned, positive⟩ := tidy.aligned page listed
  have total := stacked.active
  have room := stacked.active_pos less gone
  have pushed := stacked.put sane positive less gone
  have spot := (pushed.stored_addr sane (show (slabs.pages page).active - 1 < cache.num by omega)
    (cons_ne_nil _ _)).1
  have refiled := refiled_putNode tidy page
    (show (slabs.pages page).active - 1 < cache.num by omega)
  -- the slab had a used object, so it was not on the list of free slabs
  have notFree : page ∉ slabs.node.lists .slabsFree := by
    intro onFree
    have filed := tidy.filed .slabsFree page onFree
    rw [listFor, if_neg (pos_iff_ne_zero.mp room)] at filed
    split at filed <;> cases filed
  rw [freeBlockObj_eq sane aligned less stacked.sMem]
  refine ⟨⟨update free page (idx :: free page),
    tidy.change (tidy.place listed) ?_ ?_ ?_ ?_ ?_ ?_ ?_⟩, fun other => ?_⟩
  · exact fun other different => update_of_ne different _ _
  · simp only [update_self]
    exact refiled
  · rw [refiled.freeLength, if_neg notFree, Int.sub_zero, ← tidy.freeSlabs]
    unfold putNode listFor
    split
    · rw [if_pos rfl]
    · rw [if_neg (by split <;> decide), Int.add_zero]
      rfl
  · simp only [update_self]
    exact pushed
  · intro other different otherListed
    refine tidy.stacked_of_frame sane otherListed fun addr low high _ => ?_
    refine update_of_ne (fun same => ?_) _ _
    have := tidy.apart other page otherListed listed different
    simp only at spot
    omega
  · exact tidy.distinct.erase _
  · intro objp out
    obtain ⟨different, before⟩ := tidy.distinct.mem_erase_iff.mp out
    refine (tidy.used objp before).change refiled fun _ otherIdx outside same inStack => ?_
    grind
  · exact (refiled.listed_iff other).trans (or_iff_right_of_imp fun same => same ▸ listed)

/-! ### Writes to objects that are out -/

/-- What is written into an object that is out reaches no stack. -/
theorem Tidy.write (sane : cache.Sane) (member : objp ∈ out) {memory : Memory}
    (frame : ∀ addr, ¬(objp ≤ addr ∧ addr < objp + cache.size) → memory addr = slabs.memory addr) :
    Tidy cache { slabs with memory } free out := by
  obtain ⟨page, idx, listed, less, gone, rfl⟩ := tidy.used objp member
  refine { tidy with stacked := fun other otherListed => ?_ }
  refine tidy.stacked_of_frame sane otherListed fun addr low high outside => frame addr ?_
  intro slot
  rcases eq_or_ne other page with rfl | same
  · exact outside idx less gone slot
  · have := InSlot.in_slab sane less slot
    have := tidy.apart other page otherListed listed same
    omega

/-- The books only read the lists and the number of free slabs of the node. -/
theorem Tidy.of_same (memory : after.memory = slabs.memory)
    (pages : after.pages = slabs.pages) (lists : after.node.lists = slabs.node.lists)
    (freeSlabs : after.node.freeSlabs = slabs.node.freeSlabs) : Tidy cache after free out := by
  obtain ⟨_, _, ⟨_, _, _, _⟩, _⟩ := after
  subst memory pages lists freeSlabs
  exact ⟨tidy.aligned, tidy.apart, tidy.filed, tidy.nodup, tidy.freeSlabs, tidy.stacked,
    tidy.distinct, tidy.used⟩

end Changes

end Xlinux
