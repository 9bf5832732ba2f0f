/-
This file proves that a cache hands out each object to one user at a time. Every
call of a user keeps the books of the cache in order: the stacks of free indices,
the three lists of slabs, and the counters, which add up to the objects that the
slabs have. It also shows where a cache of a size that wraps around goes wrong.
-/

import Xlinux.Slab.Stacks
import Xlinux.Lib.Run

namespace Xlinux

open List
open Function

section Calls

variable {cache : KmemCache} {slabs after : Slabs} {free : Nat → List Nat} {out : List Nat}
  {page : Nat}
variable {before memory : Memory} {count : Nat} {fresh : FreshPages} {live : List Nat}

/-! ### A new slab -/

/-- The descriptor of a new slab. -/
def grownDesc (cache : KmemCache) (page : Nat) : SlabPage :=
  ⟨page, 0, if cache.objfreelist then page + cache.size * (cache.num - 1)
    else page + slabBytes cache.gfporder - cache.num⟩

/-- Memory in which the first free indices of a new slab have been written. -/
structure Filled (cache : KmemCache) (before memory : Memory) (page count : Nat) : Prop where
  frame : ∀ addr, ¬(page ≤ addr ∧ addr < page + slabBytes cache.gfporder) →
    memory addr = before addr
  stored : ∀ idx < count, (memory ((grownDesc cache page).freelist + idx)).toNat = idx

section

theorem slabBytes_pos (gfporder : Nat) : 0 < slabBytes gfporder := by
  rw [slabBytes, Nat.shiftLeft_eq]
  exact Nat.mul_pos (by decide) (Nat.two_pow_pos gfporder)

variable (sane : cache.Sane)

include sane

theorem grownDesc_spot (page : Nat) {position : Nat} (bound : position < cache.num) :
    page ≤ (grownDesc cache page).freelist + position ∧
      (grownDesc cache page).freelist + position < page + slabBytes cache.gfporder := by
  cases held : cache.objfreelist with
  | true =>
    have slot := slot_end_le (show cache.num - 1 < cache.num by omega)
    have := sane.inside held
    simp only [grownDesc, held, if_true]
    omega
  | false =>
    have := sane.behind held
    simp only [grownDesc, held, Bool.false_eq_true, if_false]
    omega

/-- The constructor writes to its object, which is not where the free indices are. -/
theorem Filled.construct {idx : Nat}
    (filled : Filled cache before memory page count) (less : idx < cache.num)
    (ctor : cache.hasCtor = true) (most : count ≤ cache.num) (constructed : Nat → UInt8) :
    Filled cache before (memory.fill (page + cache.size * idx) cache.objectSize constructed)
      page count := by
  have slot := slot_end_le less
  have room := sane.behind (sane.constructed ctor)
  have fits := sane.objectSize_le
  refine ⟨fun addr outside => ?_, fun position bound => ?_⟩
  · rw [Memory.fill, if_neg (by omega)]
    exact filled.frame addr outside
  · have spot : (grownDesc cache page).freelist = page + slabBytes cache.gfporder - cache.num := by
      simp [grownDesc, sane.constructed ctor]
    rw [Memory.fill, if_neg (by omega)]
    exact filled.stored position bound

/-- One turn of the loop of `cache_init_objs`. -/
theorem Filled.cacheInitObj {idx : Nat} (filled : Filled cache before slabs.memory fresh.page idx)
    (less : idx < cache.num) (desc : slabs.pages fresh.page = grownDesc cache fresh.page) :
    ∃ memory, cacheInitObj cache fresh slabs idx = { slabs with memory } ∧
      Filled cache before memory fresh.page (idx + 1) := by
  have written : ∀ {memory : Memory}, Filled cache before memory fresh.page idx →
      Filled cache before (update memory
        ((grownDesc cache fresh.page).freelist + idx) (UInt8.ofNat idx)) fresh.page (idx + 1) := by
    intro memory filled
    have spot := grownDesc_spot sane fresh.page less
    refine ⟨fun addr outside => ?_, fun position bound => ?_⟩
    · rw [update_of_ne (by omega)]
      exact filled.frame addr outside
    · by_cases last : position = idx
      · have byte : idx < 256 := Nat.lt_succ_of_le (less.le.trans sane.num_le)
        rw [last, update_self, UInt8.toNat_ofNat', Nat.mod_eq_of_lt byte]
      · rw [update_of_ne (by omega)]
        exact filled.stored position (by omega)
  cases ctor : cache.hasCtor with
  | true =>
    refine ⟨_, ?_, written (filled.construct sane less ctor less.le fresh.constructed)⟩
    simp only [Xlinux.cacheInitObj, ctor, if_true, setFreeObj, desc]
    rfl
  | false =>
    refine ⟨_, ?_, written filled⟩
    simp only [Xlinux.cacheInitObj, ctor, Bool.false_eq_true, if_false, setFreeObj, desc]

theorem Filled.foldl_cacheInitObj (filled : Filled cache before slabs.memory fresh.page 0)
    (desc : slabs.pages fresh.page = grownDesc cache fresh.page) (most : count ≤ cache.num) :
    ∃ memory, (List.range count).foldl (Xlinux.cacheInitObj cache fresh) slabs =
        { slabs with memory } ∧
      Filled cache before memory fresh.page count := by
  induction count with
  | zero => exact ⟨slabs.memory, rfl, filled⟩
  | succ count ih =>
    obtain ⟨memory, same, first⟩ := ih (Nat.le_of_succ_le most)
    rw [range_succ, foldl_append, same]
    refine Filled.cacheInitObj sane ?_ (Nat.lt_of_succ_le most) desc
    exact first

/-- A new slab has a stack with every index. -/
theorem cacheGrowBegin_spec (fresh : FreshPages) (slabs : Slabs) :
    ∃ memory, cacheGrowBegin cache fresh slabs = { slabs with
        memory
        pages := update slabs.pages fresh.page (grownDesc cache fresh.page) } ∧
      (∀ addr, ¬(fresh.page ≤ addr ∧ addr < fresh.page + slabBytes cache.gfporder) →
        memory addr = slabs.memory addr) ∧
      Stacked cache memory fresh.page (grownDesc cache fresh.page) (List.range cache.num) := by
  let grown : Slabs := { slabs with
    pages := update slabs.pages fresh.page (grownDesc cache fresh.page) }
  have start : Filled cache slabs.memory grown.memory fresh.page 0 :=
    ⟨fun _ _ => rfl, nofun⟩
  have begun : cacheGrowBegin cache fresh slabs =
      (range cache.num).foldl (cacheInitObj cache fresh) grown := by
    simp only [cacheGrowBegin, cacheInitObjs, allocSlabmgmt, Slabs.modifyPage, indexToObj, grown,
      grownDesc, sane.freelistSize_eq]
    split <;> simp
  obtain ⟨memory, same, filled⟩ := start.foldl_cacheInitObj sane (update_self ..) le_rfl
  refine ⟨memory, begun.trans same, filled.frame, ?_⟩
  constructor
  case toStored =>
    refine ⟨rfl, by simp [grownDesc], fun idx => mem_range.mp, nodup_range, ?_⟩
    intro position idx found
    obtain ⟨bound, rfl⟩ := List.getElem?_eq_some_iff.mp found
    rw [length_range] at bound
    rw [getElem_range, show (grownDesc cache fresh.page).active = 0 from rfl, zero_add]
    exact filled.stored position bound
  case inside =>
    intro held
    have positive := sane.num_pos
    rw [getLast?_range, if_neg (pos_iff_ne_zero.mp positive)]
    simp [grownDesc, held]
  case behind =>
    intro held
    simp [grownDesc, held]

/-- A page block has no address in common with the slabs that are there. -/
def Slabs.Apart (slabs : Slabs) (cache : KmemCache) (page : Nat) : Prop :=
  ∀ other ∈ slabs.node.slabs,
    page + slabBytes cache.gfporder ≤ other ∨ other + slabBytes cache.gfporder ≤ page

instance : Decidable (slabs.Apart cache page) :=
  inferInstanceAs (Decidable (∀ other ∈ slabs.node.slabs,
    page + slabBytes cache.gfporder ≤ other ∨ other + slabBytes cache.gfporder ≤ page))

omit sane in
theorem Slabs.Apart.not_listed (apart : slabs.Apart cache page) : ¬slabs.Listed page := by
  intro listed
  have := apart page (mem_slabs.mpr listed)
  have := slabBytes_pos cache.gfporder
  omega

/-! ### Refilling the per-cpu array -/

theorem Stacked.allocBlock {stack : List Nat}
    (stacked : Stacked cache slabs.memory page (slabs.pages page) stack) (positive : 0 < page)
    (nonempty : stack ≠ []) (batchcount : Nat) :
    ∃ left : Int, left ≤ batchcount - (stack.take batchcount).length ∧
      allocBlock cache slabs page batchcount =
        .ok (left, takeObjs cache slabs page (stack.take batchcount)) := by
  have total := stacked.active
  have some := length_pos_of_ne_nil nonempty
  rw [Xlinux.allocBlock, if_neg (by omega)]
  exact stacked.toStored.allocBlockLoop (stacked.freelist_ne_zero sane positive) batchcount

/-- The slab that is taken first has a free object. -/
theorem Tidy.getFirstSlab (tidy : Tidy cache slabs free out) :
    getFirstSlab slabs.node = (none, slabs.node) ∨
      ∃ page, getFirstSlab slabs.node = (some page, { slabs.node with
          freeSlabs :=
          slabs.node.freeSlabs - if page ∈ slabs.node.lists .slabsFree then 1 else 0 }) ∧
        slabs.Listed page ∧ free page ≠ [] := by
  -- only a slab on the list of full slabs has an empty stack
  have nonempty : ∀ {list page}, page ∈ slabs.node.lists list → list ≠ .slabsFull →
      free page ≠ [] := by
    intro list page member notFull empty
    have total := (tidy.stacked page ⟨list, member⟩).active
    have filed := tidy.filed list page member
    rw [empty, length_nil, add_zero] at total
    rw [total, listFor, if_neg (pos_iff_ne_zero.mp sane.num_pos), if_pos rfl] at filed
    exact notFull filed
  cases partly : slabs.node.lists .slabsPartial with
  | cons page rest =>
    have member : page ∈ slabs.node.lists .slabsPartial := partly ▸ mem_cons_self
    have notFree : page ∉ slabs.node.lists .slabsFree := fun onFree =>
      absurd ((tidy.filed _ page member).trans (tidy.filed _ page onFree).symm) (by decide)
    refine .inr ⟨page, ?_, ⟨_, member⟩, nonempty member (by decide)⟩
    rw [if_neg notFree]
    simp [Xlinux.getFirstSlab, partly]
  | nil =>
    cases unused : slabs.node.lists .slabsFree with
    | cons page rest =>
      have member : page ∈ slabs.node.lists .slabsFree := unused ▸ mem_cons_self
      refine .inr ⟨page, ?_, ⟨_, member⟩, nonempty member (by decide)⟩
      simp [Xlinux.getFirstSlab, partly, unused]
    | nil =>
      left
      simp [Xlinux.getFirstSlab, partly, unused]

end

/-- The later state has the same slabs, counters and bounds. -/
structure SameBooks (before after : Slabs) : Prop where
  listed : ∀ page, after.Listed page ↔ before.Listed page
  totalSlabs : after.node.totalSlabs = before.node.totalSlabs
  freeObjects : after.node.freeObjects = before.node.freeObjects
  limit : after.cpuCache.limit = before.cpuCache.limit
  batchcount : after.cpuCache.batchcount = before.cpuCache.batchcount

theorem SameBooks.trans {first second third : Slabs} (before : SameBooks first second)
    (after : SameBooks second third) : SameBooks first third :=
  ⟨fun page => (after.listed page).trans (before.listed page),
    after.totalSlabs.trans before.totalSlabs, after.freeObjects.trans before.freeObjects,
    after.limit.trans before.limit, after.batchcount.trans before.batchcount⟩

theorem SameBooks.refl (slabs : Slabs) : SameBooks slabs slabs :=
  ⟨fun _ => Iff.rfl, rfl, rfl, rfl, rfl⟩

/-- The loop moves at most a batch of objects to the per-cpu array. A turn moves at least one, so
as many turns as the batch has objects are enough. -/
theorem Tidy.refillLoop (sane : cache.Sane)
    (tidy : Tidy cache slabs free (live ++ slabs.cpuCache.entry)) {turns : Nat} {batchcount : Int}
    (enough : batchcount ≤ turns) :
    ∃ after free, refillLoop cache turns batchcount slabs = .ok after ∧
      Tidy cache after free (live ++ after.cpuCache.entry) ∧ SameBooks slabs after ∧
      (after.cpuCache.entry.length : Int) ≤ slabs.cpuCache.entry.length + max batchcount 0 := by
  induction turns generalizing slabs free batchcount with
  | zero =>
    refine ⟨slabs, free, ?_, tidy, .refl slabs, by omega⟩
    rw [refillLoop, if_neg (by omega)]
  | succ turns ih =>
    rw [refillLoop]
    split_ifs with more
    · rcases tidy.getFirstSlab sane with none | ⟨page, first, listed, nonempty⟩
      · rw [none]
        exact ⟨slabs, free, rfl, tidy, .refl slabs, by omega⟩
      · rw [first]
        generalize freeSlabsEq : (slabs.node.freeSlabs -
          if page ∈ slabs.node.lists .slabsFree then 1 else 0) = freeSlabs
        let filed : Slabs := { slabs with node := { slabs.node with freeSlabs } }
        have stacked : Stacked cache filed.memory page (filed.pages page) (free page) :=
          tidy.stacked page listed
        obtain ⟨left, least, taken⟩ :=
          stacked.allocBlock sane (tidy.aligned page listed).2 nonempty batchcount.toNat
        have some : 0 < ((free page).take batchcount.toNat).length := by
          rw [length_take]
          have := length_pos_of_ne_nil nonempty
          omega
        obtain ⟨next, kept⟩ := tidy.take sane batchcount.toNat { slabs.node with freeSlabs }
          (tidy.place listed) (tidy.stacked page listed) (fun _ => rfl) (fun _ _ => rfl) (by omega)
          nonempty rfl freeSlabsEq.symm
        simp only [update_eq_self] at next kept
        have entry := congrArg ArrayCache.entry (congrArg Slabs.cpuCache
          (fixupSlabList_eq cache
            (takeObjs cache filed page ((free page).take batchcount.toNat)) page))
        rw [append_assoc, show slabs.cpuCache.entry ++ _ = _ from entry.symm] at next
        obtain ⟨after, rest, ran, tidied, same, length⟩ := ih next (show left ≤ turns by omega)
        -- filing the slab touches neither counters nor bounds
        have books : SameBooks slabs (fixupSlabList cache
            (takeObjs cache filed page ((free page).take batchcount.toNat)) page) := by
          refine ⟨fun other => (kept other).trans (or_iff_right_of_imp fun same => same ▸ listed),
            ?_, ?_, ?_, ?_⟩ <;>
          · rw [fixupSlabList_eq]
            rfl
        refine ⟨after, rest, ?_, tidied, books.trans same, ?_⟩
        · simp only [filed] at taken
          simp only [taken]
          exact ran
        · have most := length_take_le batchcount.toNat (free page)
          rw [entry] at length
          simp only [takeObjs, filed, length_append, length_map] at length
          omega
    · exact ⟨slabs, free, rfl, tidy, .refl slabs, by omega⟩

/-! ### The calls of a user -/

/-- The state of a cache with the objects that its users hold. -/
structure Balanced (cache : KmemCache) (slabs : Slabs) (live : List Nat) : Prop where
  tidy : ∃ free, Tidy cache slabs free (live ++ slabs.cpuCache.entry)
  totalSlabs : slabs.node.totalSlabs = slabs.node.slabs.length
  counted : cache.num * slabs.node.totalSlabs =
    live.length + slabs.cpuCache.entry.length + slabs.node.freeObjects
  limit : slabs.cpuCache.entry.length ≤ slabs.cpuCache.limit
  batchcount : 0 < slabs.cpuCache.batchcount ∧ slabs.cpuCache.batchcount ≤ slabs.cpuCache.limit

/-- The number of slabs is kept with the set of slabs. -/
theorem Tidy.length_slabs (tidy : Tidy cache slabs free out) {rest : Nat → List Nat}
    {nextOut : List Nat} (next : Tidy cache after rest nextOut)
    (listed : ∀ page, after.Listed page ↔ slabs.Listed page) :
    after.node.slabs.length = slabs.node.slabs.length := by
  refine ((perm_ext_iff_of_nodup next.nodup_slabs tidy.nodup_slabs).mpr fun page => ?_).length_eq
  rw [mem_slabs, mem_slabs, listed]

theorem Balanced.refillFromSlabs (sane : cache.Sane)
    (balanced : Balanced cache slabs live) (empty : slabs.cpuCache.entry = []) :
    ∃ after, refillFromSlabs cache slabs = .ok after ∧ Balanced cache after live ∧
      ∀ page, after.Listed page ↔ slabs.Listed page := by
  unfold Xlinux.refillFromSlabs
  split
  · exact ⟨slabs, rfl, balanced, fun _ => Iff.rfl⟩
  · obtain ⟨_, tidy⟩ := balanced.tidy
    obtain ⟨after, rest, ran, tidied, same, length⟩ :=
      tidy.refillLoop sane (le_refl (slabs.cpuCache.batchcount : Int))
    have counted := balanced.counted
    have bounds := balanced.batchcount
    rw [empty, length_nil] at counted length
    refine ⟨{ after with node := { after.node with
      freeObjects := after.node.freeObjects - after.cpuCache.entry.length } },
      by simp only [ran]; rfl, ⟨⟨rest, tidied.of_same rfl rfl rfl rfl⟩, ?_, ?_, ?_, ?_⟩,
      same.listed⟩
    · show after.node.totalSlabs = after.node.slabs.length
      rw [same.totalSlabs, tidy.length_slabs tidied same.listed, balanced.totalSlabs]
    · simp only [same.totalSlabs, same.freeObjects]
      omega
    · show after.cpuCache.entry.length ≤ after.cpuCache.limit
      rw [same.limit]
      omega
    · simp only [same.limit, same.batchcount]
      exact bounds

/-- A fresh page block: aligned, not at address zero, and no part of a slab of the cache. -/
structure FreshPages.Usable (fresh : FreshPages) (cache : KmemCache) (slabs : Slabs) : Prop where
  aligned : 4096 ∣ fresh.page ∧ 0 < fresh.page
  apart : slabs.Apart cache fresh.page

instance (fresh : FreshPages) : Decidable (fresh.Usable cache slabs) :=
  decidable_of_iff ((4096 ∣ fresh.page ∧ 0 < fresh.page) ∧ slabs.Apart cache fresh.page)
    ⟨fun both => ⟨both.1, both.2⟩, fun usable => ⟨usable.aligned, usable.apart⟩⟩

section

/-- What giving objects back leaves as it is. -/
theorem foldl_freeBlockObj_same (cache : KmemCache) (slabs : Slabs) (objects : List Nat) :
    (objects.foldl (freeBlockObj cache) slabs).node.totalSlabs = slabs.node.totalSlabs ∧
      (objects.foldl (freeBlockObj cache) slabs).node.freeObjects = slabs.node.freeObjects ∧
      (objects.foldl (freeBlockObj cache) slabs).cpuCache = slabs.cpuCache := by
  induction objects generalizing slabs with
  | nil => exact ⟨rfl, rfl, rfl⟩
  | cons objp rest ih =>
    obtain ⟨totalSlabs, freeObjects, cpuCache⟩ := ih (freeBlockObj cache slabs objp)
    rw [foldl_cons, totalSlabs, freeObjects, cpuCache]
    unfold freeBlockObj
    dsimp only
    split <;> exact ⟨rfl, rfl, rfl⟩

variable (sane : cache.Sane)

include sane

/-- A new slab gives its first objects away before it is on any list. -/
theorem Tidy.growTake (tidy : Tidy cache slabs free out) (usable : fresh.Usable cache slabs)
    (frame : ∀ addr, ¬(fresh.page ≤ addr ∧ addr < fresh.page + slabBytes cache.gfporder) →
      memory addr = slabs.memory addr)
    {stack : List Nat}
    (stacked : Stacked cache memory fresh.page (grownDesc cache fresh.page) stack)
    (nonempty : stack ≠ []) (positive : 0 < count) (totalSlabs : Int) :
    let next := fixupSlabList cache (takeObjs cache { slabs with
      memory
      pages := update slabs.pages fresh.page (grownDesc cache fresh.page)
      node := { slabs.node with totalSlabs } } fresh.page (stack.take count)) fresh.page
    (∃ after, Tidy cache next after
      (out ++ (stack.take count).map fun idx => fresh.page + cache.size * idx)) ∧
      next.node.slabs.length = slabs.node.slabs.length + 1 := by
  have place : slabs.Place cache fresh.page :=
    ⟨usable.aligned, fun other listed _ => usable.apart other (mem_slabs.mpr listed)⟩
  have new := usable.apart.not_listed
  obtain ⟨filed, listed⟩ := tidy.take sane count { slabs.node with totalSlabs } place stacked
    (new.elim) frame positive nonempty rfl
    (by rw [if_neg fun onFree => new ⟨_, onFree⟩, Int.sub_zero])
  have nodup : (fresh.page :: slabs.node.slabs).Nodup :=
    nodup_cons.mpr ⟨fun member => new (mem_slabs.mp member), tidy.nodup_slabs⟩
  refine ⟨⟨_, filed⟩,
    ((perm_ext_iff_of_nodup filed.nodup_slabs nodup).mpr fun other => ?_).length_eq⟩
  rw [mem_slabs, listed, mem_cons, mem_slabs]

/-- Objects that are out are given back, one after the other. -/
theorem Tidy.foldl_freeBlockObj {objects : List Nat}
    (tidy : Tidy cache slabs free (objects ++ out)) :
    (∃ after, Tidy cache (objects.foldl (freeBlockObj cache) slabs) after out) ∧
      ∀ page, (objects.foldl (freeBlockObj cache) slabs).Listed page ↔ slabs.Listed page := by
  induction objects generalizing slabs free with
  | nil => exact ⟨⟨free, tidy⟩, fun _ => Iff.rfl⟩
  | cons objp rest ih =>
    obtain ⟨⟨_, given⟩, listed⟩ := tidy.put sane
      (show objp ∈ objp :: rest ++ out from mem_cons_self)
    rw [cons_append, erase_cons_head] at given
    obtain ⟨tidied, kept⟩ := ih given
    exact ⟨tidied, fun page => (kept page).trans (listed page)⟩

variable (balanced : Balanced cache slabs live)

include balanced

theorem Balanced.refillByGrowing (usable : fresh.Usable cache slabs) :
    ∃ after, refillByGrowing cache fresh slabs = .ok after ∧ Balanced cache after live ∧
      after.cpuCache.entry ≠ [] := by
  unfold Xlinux.refillByGrowing
  split_ifs with empty
  rotate_left
  · exact ⟨slabs, rfl, balanced, empty⟩
  · obtain ⟨_, tidy⟩ := balanced.tidy
    obtain ⟨memory, begun, frame, stacked⟩ := cacheGrowBegin_spec sane fresh slabs
    have counted := balanced.counted
    have bounds := balanced.batchcount
    have positive := sane.num_pos
    have nonempty : range cache.num ≠ [] := ne_nil_of_length_pos (by rwa [length_range])
    obtain ⟨⟨rest, filed⟩, oneMore⟩ := tidy.growTake sane usable frame stacked nonempty bounds.1
      (slabs.node.totalSlabs + 1)
    rw [empty, length_nil] at counted
    rw [empty, append_nil] at filed
    let growing : Slabs := { slabs with
      memory
      pages := update slabs.pages fresh.page (grownDesc cache fresh.page) }
    have whole : Stacked cache growing.memory fresh.page (growing.pages fresh.page)
        (range cache.num) := by
      simpa only [growing, update_self] using stacked
    obtain ⟨_, _, taken⟩ :=
      whole.allocBlock sane usable.aligned.2 nonempty slabs.cpuCache.batchcount
    generalize indicesEq : (range cache.num).take slabs.cpuCache.batchcount = indices
      at filed taken oneMore
    have lengths : 0 < indices.length ∧ indices.length ≤ slabs.cpuCache.batchcount := by
      rw [← indicesEq, length_take, length_range]
      omega
    have active : ((takeObjs cache growing fresh.page indices).pages fresh.page).active =
        indices.length := by
      rw [pages_takeObjs]
      simp [growing, grownDesc]
    generalize afterEq : cacheGrowEnd cache (takeObjs cache growing fresh.page indices) fresh.page =
      after
    refine ⟨after, ?_, ?_⟩
    · simp only [begun]
      rw [show allocBlock _ _ _ _ = _ from taken, ← afterEq]
      rfl
    rw [cacheGrowEnd, if_neg (by omega)] at afterEq
    have entry : after.cpuCache = { slabs.cpuCache with
        entry := indices.map fun idx => fresh.page + cache.size * idx } := by
      rw [← afterEq]
      simp only [fixupSlabList_eq, takeObjs, growing, empty, nil_append]
    have total : after.node.totalSlabs = slabs.node.totalSlabs + 1 := by
      rw [← afterEq]
      simp only [fixupSlabList_eq]
      rfl
    have freeObjects : after.node.freeObjects =
        slabs.node.freeObjects + (cache.num - indices.length) := by
      rw [← afterEq]
      simp only [fixupSlabList_eq, update_self, active]
      rfl
    have tidied : Tidy cache after rest (live ++ after.cpuCache.entry) := by
      rw [entry]
      subst afterEq
      exact filed.of_same rfl rfl rfl rfl
    have length : after.cpuCache.entry.length = indices.length := by
      rw [entry, length_map]
    refine ⟨⟨⟨rest, tidied⟩, ?_, ?_, ?_, ?_⟩, ?_⟩
    · rw [total, balanced.totalSlabs, ← Int.natCast_succ, Nat.succ_eq_add_one, ← oneMore, ← afterEq]
      rfl
    · rw [total, Int.mul_add]
      omega
    · rw [length, entry]
      exact lengths.2.trans bounds.2
    · rw [entry]
      exact bounds
    · exact ne_nil_of_length_pos (by omega)

omit sane in
/-- The last object of the per-cpu array goes to a user. -/
theorem Balanced.popEntry (some : slabs.cpuCache.entry ≠ []) :
    ∃ objp, (popEntry slabs).1 = .some objp ∧ Balanced cache (popEntry slabs).2 (objp :: live) := by
  obtain ⟨free, tidy⟩ := balanced.tidy
  have counted := balanced.counted
  have limit := balanced.limit
  have length : slabs.cpuCache.entry.dropLast.length + 1 = slabs.cpuCache.entry.length := by
    have := length_pos_of_ne_nil some
    rw [length_dropLast]
    omega
  refine ⟨slabs.cpuCache.entry.getLast some, getLast?_eq_getLast_of_ne_nil some, ⟨free, ?_⟩,
    balanced.totalSlabs, ?_, ?_, balanced.batchcount⟩
  · have moved : (live ++ slabs.cpuCache.entry).Perm
        (slabs.cpuCache.entry.getLast some :: live ++ slabs.cpuCache.entry.dropLast) := by
      conv_lhs => rw [← dropLast_append_getLast some, ← append_assoc]
      exact perm_append_singleton _ _
    exact (tidy.perm moved).of_same rfl rfl rfl rfl
  · show (cache.num * slabs.node.totalSlabs : Int) =
      (slabs.cpuCache.entry.getLast some :: live).length +
        slabs.cpuCache.entry.dropLast.length + slabs.node.freeObjects
    rw [length_cons]
    omega
  · show slabs.cpuCache.entry.dropLast.length ≤ slabs.cpuCache.limit
    omega

theorem Balanced.cacheAlloc (usable : fresh.Usable cache slabs) :
    ∃ objp after, cacheAlloc cache fresh slabs = .ok (some objp, after) ∧
      Balanced cache after (objp :: live) := by
  unfold Xlinux.cacheAlloc
  by_cases empty : slabs.cpuCache.entry = []
  · obtain ⟨refilled, ran, balanced, listed⟩ := balanced.refillFromSlabs sane empty
    have usable : fresh.Usable cache refilled := ⟨usable.aligned, fun other member =>
        usable.apart other (mem_slabs.mpr ((listed other).mp (mem_slabs.mp member)))⟩
    obtain ⟨grown, grew, balanced, some⟩ := balanced.refillByGrowing sane usable
    obtain ⟨objp, top, balanced⟩ := balanced.popEntry some
    refine ⟨objp, (Xlinux.popEntry grown).2, ?_, balanced⟩
    have none : ¬slabs.cpuCache.entry.length > 0 := by simp [empty]
    rw [if_neg none, cacheAllocRefill, if_neg none]
    refine Kernel.bind_ok.mpr ⟨refilled, ran, Kernel.bind_ok.mpr ⟨grown, grew, ?_⟩⟩
    exact congrArg Except.ok (Prod.ext top rfl)
  · obtain ⟨objp, top, balanced⟩ := balanced.popEntry empty
    refine ⟨objp, (Xlinux.popEntry slabs).2, ?_, balanced⟩
    rw [if_pos (length_pos_of_ne_nil empty)]
    exact congrArg Except.ok (Prod.ext top rfl)

/-- An object that is zeroed is handed out already, so no stack is touched. -/
theorem Balanced.write {objp : Nat} (member : objp ∈ live)
    (frame : ∀ addr, ¬(objp ≤ addr ∧ addr < objp + cache.objectSize) →
      memory addr = slabs.memory addr) : Balanced cache { slabs with memory } live := by
  obtain ⟨free, tidy⟩ := balanced.tidy
  have fits := sane.objectSize_le
  have written := tidy.write sane (mem_append_left _ member) fun addr outside =>
    frame addr (by omega)
  exact ⟨⟨free, written⟩, balanced.totalSlabs, balanced.counted, balanced.limit,
    balanced.batchcount⟩

theorem Balanced.slabAlloc (flags : UInt32) (usable : fresh.Usable cache slabs) :
    ∃ objp after, slabAlloc cache flags fresh slabs = .ok (some objp, after) ∧
      Balanced cache after (objp :: live) := by
  obtain ⟨objp, after, ran, balanced⟩ := balanced.cacheAlloc sane usable
  simp only [Xlinux.slabAlloc, ran]
  by_cases zero : flags &&& gfpZero ≠ 0
  · refine ⟨objp, _, if_pos zero, balanced.write sane mem_cons_self fun addr outside => ?_⟩
    exact if_neg outside
  · exact ⟨objp, after, if_neg zero, balanced⟩

/-! ### Objects that come back -/

/-- `cache_flusharray` gives a batch back, so that there is room in the per-cpu array. -/
theorem Balanced.cacheFlusharray :
    Balanced cache (cacheFlusharray cache slabs) live ∧
      (slabs.cpuCache.entry.length ≥ slabs.cpuCache.limit →
        (cacheFlusharray cache slabs).cpuCache.entry.length <
          (cacheFlusharray cache slabs).cpuCache.limit) := by
  obtain ⟨free, tidy⟩ := balanced.tidy
  have counted := balanced.counted
  have limit := balanced.limit
  have bounds := balanced.batchcount
  generalize flushedEq : slabs.cpuCache.entry.take slabs.cpuCache.batchcount = flushed
  generalize keptEq : slabs.cpuCache.entry.drop slabs.cpuCache.batchcount = kept
  have whole : flushed ++ kept = slabs.cpuCache.entry := by
    rw [← flushedEq, ← keptEq, take_append_drop]
  have lengths : flushed.length + kept.length = slabs.cpuCache.entry.length := by
    rw [← length_append, whole]
  have moved : (live ++ slabs.cpuCache.entry).Perm (flushed ++ (live ++ kept)) := by
    rw [← whole]
    exact perm_append_comm_assoc live flushed kept
  let start : Slabs := { slabs with node := { slabs.node with
    freeObjects := slabs.node.freeObjects + flushed.length } }
  have started : Tidy cache start free (flushed ++ (live ++ kept)) :=
    (tidy.perm moved).of_same rfl rfl rfl rfl
  obtain ⟨⟨after, given⟩, listed⟩ := started.foldl_freeBlockObj sane
  obtain ⟨totalSlabs, freeObjects, cpuCache⟩ := foldl_freeBlockObj_same cache start flushed
  have flush : Xlinux.cacheFlusharray cache slabs = { flushed.foldl (freeBlockObj cache) start with
        cpuCache := { slabs.cpuCache with entry := kept } } := by
    simp only [Xlinux.cacheFlusharray, freeBlock, flushedEq]
    rw [cpuCache, ← keptEq]
  rw [flush]
  refine ⟨⟨⟨after, given.of_same rfl rfl rfl rfl⟩, ?_, ?_, ?_, bounds⟩, fun full => ?_⟩
  · rw [totalSlabs, started.length_slabs given listed]
    exact balanced.totalSlabs
  · simp only [totalSlabs, freeObjects, start]
    omega
  · show kept.length ≤ slabs.cpuCache.limit
    omega
  · show kept.length < slabs.cpuCache.limit
    rw [← keptEq, length_drop]
    omega

theorem Balanced.cacheFree {objp : Nat}
    (member : objp ∈ live) : Balanced cache (cacheFree cache slabs objp) (live.erase objp) := by
  have push : ∀ {slabs}, Balanced cache slabs live →
      slabs.cpuCache.entry.length < slabs.cpuCache.limit →
      Balanced cache (pushEntry slabs objp) (live.erase objp) := by
    intro slabs balanced room
    obtain ⟨free, tidy⟩ := balanced.tidy
    have counted := balanced.counted
    have erased := length_erase_of_mem member
    have some := length_pos_of_mem member
    have moved : (live ++ slabs.cpuCache.entry).Perm
        (live.erase objp ++ (slabs.cpuCache.entry ++ [objp])) := by
      refine ((perm_cons_erase member).append_right _).trans ?_
      rw [← append_assoc]
      exact (perm_append_singleton _ _).symm
    refine ⟨⟨free, (tidy.perm moved).of_same rfl rfl rfl rfl⟩, balanced.totalSlabs, ?_, ?_,
      balanced.batchcount⟩
    · simp only [pushEntry, length_append, length_singleton]
      omega
    · simp only [pushEntry, length_append]
      exact room
  unfold Xlinux.cacheFree
  split_ifs with full
  · obtain ⟨balanced, room⟩ := balanced.cacheFlusharray sane
    exact push balanced (room full)
  · exact push balanced (Nat.lt_of_not_le full)

end

end Calls

/-! ### Runs of calls -/

/-- What users of a cache do: they allocate an object, free one that they hold, or write a byte
of one that they hold. The page block is the one that the page allocator would give. -/
inductive SlabCall
  | alloc (flags : UInt32) (fresh : FreshPages)
  | free (objp : Nat)
  | write (objp offset : Nat) (byte : UInt8)

/-- A cache and the objects that its users hold. -/
structure SlabUsers where
  slabs : Slabs
  live : List Nat

/-- A new cache: memory and page descriptors are what they are, and there are no slabs yet. -/
def newCache (memory : Memory) (pages : Nat → SlabPage) (cpuCache : ArrayCache) : SlabUsers :=
  ⟨⟨memory, pages, emptyNode, cpuCache⟩, []⟩

/-- One call of a user. -/
def slabCall (cache : KmemCache) (users : SlabUsers) : SlabCall → Except Halt SlabUsers
  | .alloc flags fresh =>
    if fresh.Usable cache users.slabs then
      match slabAlloc cache flags fresh users.slabs with
      | .ok (some objp, slabs) => .ok ⟨slabs, objp :: users.live⟩
      | .ok (none, slabs) => .ok { users with slabs }
      | .error fault => .error (.fault fault)
    else .error .misuse
  | .free objp =>
    if objp ∈ users.live then
      .ok ⟨cacheFree cache users.slabs objp, users.live.erase objp⟩
    else .error .misuse
  | .write objp offset byte =>
    if objp ∈ users.live ∧ offset < cache.objectSize then
      .ok { users with slabs := { users.slabs with
        memory := update users.slabs.memory (objp + offset) byte } }
    else .error .misuse

/-- What users may rely on, and what the books of the cache say. -/
structure SlabUsers.Safe (users : SlabUsers) (cache : KmemCache) : Prop where
  /-- No object is held twice, or held and waiting in the per-cpu array. -/
  distinct : (users.live ++ users.slabs.cpuCache.entry).Nodup
  /-- Two objects that are held have no byte in common. -/
  apart : users.live.Pairwise fun objp other =>
    objp + cache.objectSize ≤ other ∨ other + cache.objectSize ≤ objp
  /-- Every object lies in a slab. -/
  inside : ∀ objp ∈ users.live ++ users.slabs.cpuCache.entry, ∃ page ∈ users.slabs.node.slabs,
    page ≤ objp ∧ objp + cache.objectSize ≤ page + slabBytes cache.gfporder
  /-- Every object is live, in the per-cpu array or free. -/
  counted : cache.num * users.slabs.node.totalSlabs =
    users.live.length + users.slabs.cpuCache.entry.length + users.slabs.node.freeObjects
  totalSlabs : users.slabs.node.totalSlabs = users.slabs.node.slabs.length
  freeSlabs : users.slabs.node.freeSlabs = (users.slabs.node.lists .slabsFree).length
  /-- A slab is on the list for its active count. -/
  filed : ∀ list, ∀ page ∈ users.slabs.node.lists list,
    (users.slabs.pages page).active ≤ cache.num ∧
      list = listFor cache (users.slabs.pages page).active
  limit : users.slabs.cpuCache.entry.length ≤ users.slabs.cpuCache.limit

section Runs

variable {cache : KmemCache} {users : SlabUsers}

/-- Two different objects that are out have no byte in common. -/
theorem Tidy.objects_apart (sane : cache.Sane) {slabs : Slabs} {free : Nat → List Nat}
    {out : List Nat} (tidy : Tidy cache slabs free out) {objp other : Nat} (member : objp ∈ out)
    (otherMember : other ∈ out) (different : objp ≠ other) :
    objp + cache.size ≤ other ∨ other + cache.size ≤ objp := by
  obtain ⟨page, idx, listed, less, _, rfl⟩ := tidy.used objp member
  obtain ⟨otherPage, otherIdx, otherListed, otherLess, _, rfl⟩ := tidy.used other otherMember
  by_contra overlap
  -- the later start is an address of both
  have same :=
    (tidy.place listed).object_eq sane otherListed less otherLess (show InSlot cache page idx
      (max (page + cache.size * idx) (otherPage + cache.size * otherIdx)) by
        rw [InSlot]
        omega)
    (by
      rw [InSlot]
      omega)
  rw [same.1, same.2] at different
  exact different rfl

theorem Balanced.safe (sane : cache.Sane) (balanced : Balanced cache users.slabs users.live) :
    users.Safe cache := by
  obtain ⟨_, tidy⟩ := balanced.tidy
  have fits := sane.objectSize_le
  refine ⟨tidy.distinct, ?apart, ?inside, balanced.counted, balanced.totalSlabs, tidy.freeSlabs,
    ?filed, balanced.limit⟩
  case apart =>
    refine (nodup_append.mp tidy.distinct).1.imp_of_mem fun member otherMember different => ?_
    have := tidy.objects_apart sane (mem_append_left _ member)
      (mem_append_left _ otherMember) different
    omega
  case inside =>
    intro objp member
    obtain ⟨page, _, listed, less, _, rfl⟩ := tidy.used objp member
    have slot := slot_end_le less
    have objects := sane.objects_le
    exact ⟨page, mem_slabs.mpr listed, Nat.le_add_right .., by omega⟩
  case filed =>
    intro list page member
    have total := (tidy.stacked page ⟨list, member⟩).active
    exact ⟨by omega, tidy.filed list page member⟩

theorem balanced_newCache (memory : Memory) (pages : Nat → SlabPage) {cpuCache : ArrayCache}
    (empty : cpuCache.entry = []) (positive : 0 < cpuCache.batchcount)
    (least : cpuCache.batchcount ≤ cpuCache.limit) :
    Balanced cache (newCache memory pages cpuCache).slabs [] := by
  obtain ⟨limit, batchcount, entry⟩ := cpuCache
  subst empty
  refine ⟨⟨fun _ => [], ?_⟩, rfl, Int.mul_zero _, Nat.zero_le _, positive, least⟩
  exact {
    aligned := nofun
    apart := nofun
    filed := nofun
    nodup := fun _ => nodup_nil
    freeSlabs := rfl
    stacked := nofun
    distinct := nodup_nil
    used := nofun }

/-- A call that is allowed returns, and keeps the books. -/
theorem Balanced.slabCall (sane : cache.Sane) (balanced : Balanced cache users.slabs users.live)
    (call : SlabCall) :
    slabCall cache users call = .error .misuse ∨
      ∃ next, slabCall cache users call = .ok next ∧ Balanced cache next.slabs next.live := by
  cases call with
  | alloc flags fresh =>
    rw [Xlinux.slabCall]
    split_ifs with usable
    · obtain ⟨objp, after, ran, next⟩ := balanced.slabAlloc sane flags usable
      rw [ran]
      exact .inr ⟨_, rfl, next⟩
    · exact .inl rfl
  | free objp =>
    by_cases member : objp ∈ users.live
    · exact .inr ⟨_, if_pos member, balanced.cacheFree sane member⟩
    · exact .inl (if_neg member)
  | write objp offset byte =>
    by_cases allowed : objp ∈ users.live ∧ offset < cache.objectSize
    · refine .inr ⟨_, if_pos allowed, balanced.write sane allowed.1 fun addr outside => ?_⟩
      exact update_of_ne (by omega) _ _
    · exact .inl (if_neg allowed)

/-- In every run of calls on a cache that was created for a request that fits, objects are held
by one user at a time, the books are right, and the kernel does not stop. -/
theorem slabCall_run_safe {state : SlabState} {chunk left : ReservedChunk} {request : CacheRequest}
    {cpuCache : ArrayCache} (fits : request.Fits)
    (created : kmemCacheCreate state chunk request = .ok (cache, cpuCache, left))
    (memory : Memory) (pages : Nat → SlabPage) (calls : List SlabCall) :
    match Run.run (slabCall cache) (newCache memory pages cpuCache) calls with
    | .ok users => users.Safe cache
    | .error .misuse => True
    | .error (.fault _) => False := by
  obtain ⟨_, laidOut, setup⟩ := Kernel.bind_ok.mp created
  obtain ⟨⟨_, _⟩, arranged, same⟩ := Kernel.bind_ok.mp setup
  cases same
  have sane := fits.sane laidOut
  obtain ⟨empty, positive, least⟩ := setupCpuCache_spec arranged
  have start : Balanced cache (newCache memory pages cpuCache).slabs [] :=
    balanced_newCache memory pages empty positive least
  rcases Run.run_or_error
    (fun (users : SlabUsers) call (balanced : Balanced cache users.slabs users.live) =>
    balanced.slabCall sane call) start calls with misuse | ⟨users, ran, balanced⟩
  · rw [misuse]
    trivial
  · rw [ran]
    exact balanced.safe sane

/-- Objects of a thousand bytes, four in a page. -/
theorem slabCall_run_safe_thousand :
    ∃ cache cpuCache left users,
      kmemCacheCreate .up ⟨1, 100⟩ ⟨1000, 0, 0, false⟩ = .ok (cache, cpuCache, left) ∧
      Run.run (slabCall cache) (newCache (fun _ => 0) (fun _ => ⟨0, 0, 0⟩) cpuCache)
        [.alloc 0 ⟨4096, fun _ => 0⟩, .write 4096 999 7, .alloc 0x100 ⟨8192, fun _ => 0⟩,
          .free 4096] = .ok users ∧
      users.live = [5096] ∧ users.Safe cache := by
  have created : kmemCacheCreate .up ⟨1, 100⟩ ⟨1000, 0, 0, false⟩ =
      .ok (⟨1000, 1000, 0x40000000, 4, 0, 4, false⟩, ⟨1, 1, []⟩, ⟨25, 76⟩) := by decide
  have safe := slabCall_run_safe ⟨by decide, by decide, by decide, by decide⟩ created
    (fun _ => 0) (fun _ => ⟨0, 0, 0⟩)
    [.alloc 0 ⟨4096, fun _ => 0⟩, .write 4096 999 7, .alloc 0x100 ⟨8192, fun _ => 0⟩, .free 4096]
  exact ⟨_, _, _, _, created, rfl, by decide, safe⟩

/-- The rounding of the size wraps around: the cache gets objects of sixteen bytes, and a byte of
the first one, which should have almost four gigabytes, is the next free index. -/
theorem slabCall_run_same_object :
    ∃ cache cpuCache left users,
      kmemCacheCreate .up ⟨1, 100⟩ ⟨0xffffffff, 0, 0, false⟩ = .ok (cache, cpuCache, left) ∧
      Run.run (slabCall cache) (newCache (fun _ => 0) (fun _ => ⟨0, 0, 0⟩) cpuCache)
        [.alloc 0 ⟨4096, fun _ => 0⟩, .write 4096 3857 0, .alloc 0 ⟨8192, fun _ => 0⟩] = .ok users ∧
      users.live = [4096, 4096] := by
  have created : kmemCacheCreate .up ⟨1, 100⟩ ⟨0xffffffff, 0, 0, false⟩ =
      .ok (⟨0xffffffffffffffff, 16, 0, 240, 0, 240, false⟩, ⟨1, 1, []⟩, ⟨25, 76⟩) := by decide
  have held : (Run.run (slabCall ⟨0xffffffffffffffff, 16, 0, 240, 0, 240, false⟩)
      (newCache (fun _ => 0) (fun _ => ⟨0, 0, 0⟩) ⟨1, 1, []⟩)
      [.alloc 0 ⟨4096, fun _ => 0⟩, .write 4096 3857 0, .alloc 0 ⟨8192, fun _ => 0⟩]).map
        SlabUsers.live = .ok [4096, 4096] := by decide +kernel
  obtain ⟨users, ran, live⟩ := exists_ok_of_map held
  exact ⟨_, _, _, users, created, ran, live⟩

end Runs

end Xlinux
