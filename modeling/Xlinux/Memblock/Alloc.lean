/-
This file models the early allocator of `memblock/memblock.c` and proves that it
finds the highest place for a request. The search goes down the free ranges; in
each range the best candidate is the range's upper end less the size, rounded
down, so the first range with a candidate has the highest one.
-/

import Xlinux.Memblock.FreeRanges

namespace Xlinux

open Spans Iterate List

variable {memblock : Memblock}

/-! ### The functions -/

/-- `SMP_CACHE_BYTES`. -/
def smpCacheBytes : UInt64 := 64

/-- The body of the loop in `__memblock_find_range_top_down`. -/
def findInRange (start limit size align : UInt64) (_ : Unit) (range : MemRange) :
    Kernel (UInt64 ⊕ Unit) :=
  let thisStart := clamp range.start start limit
  let thisEnd := clamp range.stop start limit
  if thisEnd < size then .ok (.inr ())
  else
    let cand := roundDown (thisEnd - size) align
    if cand ≥ thisStart then .ok (.inl cand) else .ok (.inr ())

/-- `__memblock_find_range_top_down`. The output variables of the loop are written before they
are read, so their initial values do not matter. -/
def memblockFindRangeTopDown (memblock : Memblock) (start limit size align : UInt64) :
    Kernel UInt64 := do
  match ← forEachFreeMemRangeReverse memblock (findInRange start limit size align) () ⟨0, 0⟩ with
  | .inl cand => return cand
  | .inr () => return 0

/-- `memblock_find_in_range_node`. -/
def memblockFindInRangeNode (memblock : Memblock) (size align : UInt64) : Kernel UInt64 :=
  memblockFindRangeTopDown memblock pageSize memblock.currentLimit size align

/-- `memblock_alloc_range_nid`: the address and the new state. `memblock_reserve` returns `0`
whenever it returns. -/
def memblockAllocRangeNid (memblock : Memblock) (size align : UInt64) :
    Kernel (UInt64 × Memblock) := do
  if memblock.stopped then throw (.panic "memblock has been stopped!")
  let align := if align = 0 then smpCacheBytes else align
  let found ← memblockFindInRangeNode memblock size align
  if found = 0 then return (0, memblock)
  let memblock ← memblockReserve memblock found size
  return (found, memblock)

/-! ### The best candidate in one range -/

/-- `address` is a multiple of `align` at or above `PAGE_SIZE`, and `size` bytes from there lie
in `span` and end at or below `limit`. -/
structure Candidate (limit size align : Nat) (span : Span Nat) (address : Nat) : Prop where
  aligned : align ∣ address
  above : 4096 ≤ address
  starts : span.lo ≤ address
  ends : address + size ≤ span.hi
  limited : address + size ≤ limit

/-- A multiple at or below a number is at or below that number rounded down. -/
theorem le_sub_mod_of_dvd {align address bound : Nat} (aligned : align ∣ address)
    (below : address ≤ bound) : address ≤ bound - bound % align := by
  obtain ⟨factor, rfl⟩ := aligned
  rcases eq_zero_or_pos align with zero | positive
  · rw [zero, zero_mul]
    exact Nat.zero_le _
  · have quotient : factor ≤ bound / align :=
      (Nat.le_div_iff_mul_le positive).mpr (by rwa [mul_comm])
    calc align * factor ≤ align * (bound / align) := Nat.mul_le_mul_left align quotient
      _ = bound - bound % align := by
        have split := Nat.div_add_mod bound align
        omega

section Search

variable (limit : UInt64) {size align : UInt64} {shift : Nat} (power : align.toNat = 2 ^ shift)
  (positive : 0 < size.toNat)

include power positive in
/-- In one range the body finds the highest candidate, or there is none. -/
theorem findInRange_spec (range : MemRange) :
    (∃ cand, findInRange pageSize limit size align () range = .ok (.inl cand) ∧
      IsGreatest {address | Candidate limit.toNat size.toNat align.toNat range.span address}
        cand.toNat) ∨
    findInRange pageSize limit size align () range = .ok (.inr ()) ∧
      ∀ address, ¬ Candidate limit.toNat size.toNat align.toNat range.span address := by
  have bottom := toNat_clamp range.start pageSize limit
  have top := toNat_clamp range.stop pageSize limit
  rw [toNat_pageSize] at bottom top
  have lo : range.span.lo = range.start.toNat := rfl
  have hi : range.span.hi = range.stop.toNat := rfl
  unfold findInRange
  simp only [UInt64.lt_iff_toNat_lt]
  by_cases short : (clamp range.stop pageSize limit).toNat < size.toNat
  · refine Or.inr ⟨if_pos short, fun address candidate => ?_⟩
    have := candidate.ends
    have := candidate.limited
    omega
  · rw [if_neg short]
    have room : size.toNat ≤ (clamp range.stop pageSize limit).toNat := not_lt.mp short
    have rounded := toNat_roundDown power (clamp range.stop pageSize limit - size)
    rw [toNat_sub_of_toNat_le room] at rounded
    -- Every candidate lies below the clamped end less the size, hence below its rounding.
    have best : ∀ address, Candidate limit.toNat size.toNat align.toNat range.span address →
        address ≤ (roundDown (clamp range.stop pageSize limit - size) align).toNat := by
      intro address candidate
      rw [rounded, ← power]
      refine le_sub_mod_of_dvd candidate.aligned ?_
      have := candidate.ends
      have := candidate.limited
      omega
    by_cases fits : (clamp range.start pageSize limit).toNat ≤
        (roundDown (clamp range.stop pageSize limit - size) align).toNat
    · refine Or.inl ⟨_, if_pos fits, ⟨?_, ?_, ?_, ?_, ?_⟩, best⟩
      · rw [rounded, power]
        exact Nat.dvd_sub_mod _
      · omega
      · omega
      · omega
      · omega
    · refine Or.inr ⟨if_neg fits, fun address candidate => fits ?_⟩
      have := best address candidate
      have := candidate.above
      have := candidate.starts
      omega

include power positive in
/-- Down a descending list of ranges the loop finds the highest candidate, or there is none:
every candidate in a later range lies below every candidate in an earlier one. -/
theorem each_findInRange_spec (ranges : List MemRange)
    (descending : (ranges.map MemRange.span).Pairwise fun first second => second.hi ≤ first.lo) :
    (∃ cand, each (findInRange pageSize limit size align) () ranges = .ok (.inl cand) ∧
      IsGreatest {address | ∃ span ∈ ranges.map MemRange.span,
        Candidate limit.toNat size.toNat align.toNat span address} cand.toNat) ∨
    each (findInRange pageSize limit size align) () ranges = .ok (.inr ()) ∧
      ∀ address, ∀ span ∈ ranges.map MemRange.span,
        ¬ Candidate limit.toNat size.toNat align.toNat span address := by
  induction ranges with
  | nil => exact Or.inr ⟨rfl, fun _ _ none => nomatch none⟩
  | cons range rest ih =>
    obtain ⟨later, descendingRest⟩ := pairwise_cons.mp descending
    rw [each]
    rcases findInRange_spec limit power positive range with ⟨cand, code, member,
      best⟩ | ⟨code, none⟩
    · refine Or.inl ⟨cand, by rw [code], ⟨range.span, mem_cons_self, member⟩, ?_⟩
      rintro address ⟨span, inside, candidate⟩
      rcases mem_cons.mp inside with rfl | inRest
      · exact best candidate
      · have := later span inRest
        have := candidate.ends
        have := member.starts
        omega
    · rw [code]
      rcases ih descendingRest with ⟨cand, found, ⟨span, inside, candidate⟩, best⟩ |
        ⟨passed, noneRest⟩
      · refine Or.inl ⟨cand, found, ⟨span, mem_cons_of_mem _ inside, candidate⟩, ?_⟩
        rintro address ⟨other, otherInside, otherCandidate⟩
        rcases mem_cons.mp otherInside with rfl | inRest
        · exact absurd otherCandidate (none address)
        · exact best ⟨other, inRest, otherCandidate⟩
      · refine Or.inr ⟨passed, fun address span inside => ?_⟩
        rcases mem_cons.mp inside with rfl | inRest
        · exact none address
        · exact noneRest address span inRest

end Search

/-! ### The search over the free ranges -/

/-- `size` bytes at `address` can be handed out: the address is a multiple of `align` at or
above `PAGE_SIZE`, and the bytes lie in memory, outside every reserved region and below the
current limit. -/
structure Suitable (memblock : Memblock) (size align : UInt64) (address : Nat) : Prop where
  aligned : align.toNat ∣ address
  above : pageSize.toNat ≤ address
  inMemory : Set.Ico address (address + size.toNat) ⊆ memblock.memory.covered
  notReserved : Disjoint (Set.Ico address (address + size.toNat)) memblock.reserved.covered
  limited : address + size.toNat ≤ memblock.currentLimit.toNat

/-- A place is suitable when it is a candidate in one of the free ranges. -/
theorem suitable_iff (arranged : memblock.Arranged) {size align : UInt64}
    (positive : 0 < size.toNat) (address : Nat) :
    Suitable memblock size align address ↔ ∃ span ∈ memblock.freeSpans,
      Candidate memblock.currentLimit.toNat size.toNat align.toNat span address := by
  have normal := arranged.normal_freeSpans
  constructor
  · intro suitable
    have inside : (Span.mk address (address + size.toNat)).points ⊆ cover memblock.freeSpans := by
      rw [arranged.cover_freeSpans]
      exact fun point within =>
        ⟨suitable.inMemory within, Set.disjoint_left.mp suitable.notReserved within⟩
    obtain ⟨span, member, starts, ends⟩ :=
      normal.exists_of_subset_cover (Nat.lt_add_of_pos_right positive) inside
    exact ⟨span, member, suitable.aligned, suitable.above, starts, ends, suitable.limited⟩
  · rintro ⟨span, member, candidate⟩
    have free : Set.Ico address (address + size.toNat) ⊆ memblock.free := by
      intro point within
      rw [← arranged.cover_freeSpans]
      exact ⟨span, member, candidate.starts.trans within.1, within.2.trans_le candidate.ends⟩
    exact ⟨candidate.aligned, candidate.above, fun point within => (free within).1,
      Set.disjoint_left.mpr fun point within => (free within).2, candidate.limited⟩

/-- The search finds the highest suitable place, or returns `0` when there is none. -/
theorem memblockFindInRangeNode_spec (arranged : memblock.Arranged) {size align : UInt64}
    {shift : Nat} (power : align.toNat = 2 ^ shift) (positive : 0 < size.toNat) :
    (∃ found, memblockFindInRangeNode memblock size align = .ok found ∧
      IsGreatest {address | Suitable memblock size align address} found.toNat) ∨
    memblockFindInRangeNode memblock size align = .ok 0 ∧
      ∀ address, ¬ Suitable memblock size align address := by
  have spans : memblock.freeRanges.reverse.map MemRange.span = memblock.freeSpans.reverse := by
    rw [map_reverse, arranged.map_span_freeRanges]
  have descending : (memblock.freeRanges.reverse.map MemRange.span).Pairwise
      fun first second => second.hi ≤ first.lo := by
    rw [spans, pairwise_reverse]
    exact arranged.normal_freeSpans.ascending
  have suitable : {address | Suitable memblock size align address} =
      {address | ∃ span ∈ memblock.freeRanges.reverse.map MemRange.span,
        Candidate memblock.currentLimit.toNat size.toNat align.toNat span address} := by
    ext address
    rw [spans]
    simp only [suitable_iff arranged positive, mem_reverse]
  rw [memblockFindInRangeNode, memblockFindRangeTopDown, arranged.forEachFreeMemRangeReverse_eq]
  rcases each_findInRange_spec memblock.currentLimit power positive _ descending with
    ⟨cand, code, greatest⟩ | ⟨code, none⟩
  · refine Or.inl ⟨cand, by rw [code]; rfl, ?_⟩
    rw [suitable]
    exact greatest
  · refine Or.inr ⟨by rw [code]; rfl, fun address place => ?_⟩
    have member : address ∈ {address | Suitable memblock size align address} := place
    rw [suitable] at member
    obtain ⟨span, inside, candidate⟩ := member
    exact none address span inside candidate

/-! ### An allocation -/

/-- A range that ends at or below the current limit is reserved whole. -/
theorem requested_of_limited {size align : UInt64} {found : UInt64}
    (suitable : Suitable memblock size align found.toNat) :
    requested found size = Set.Ico found.toNat (found.toNat + size.toNat) := by
  have limited := suitable.limited
  have bound : memblock.currentLimit.toNat ≤ physAddrMax.toNat :=
    Nat.le_of_lt_succ (UInt64.toNat_lt _)
  rw [requested, min_eq_left (by omega)]

theorem memblockReserve_error {base size : UInt64} {fault : Fault}
    (fails : memblockReserve memblock base size = .error fault) : fault = .panic "overflow\n" := by
  unfold memblockReserve at fails
  cases added : memblockAddRange memblock.reserved base size with
  | ok reserved =>
    rw [added] at fails
    cases fails
  | error other =>
    rw [added] at fails
    rw [← Except.error.inj fails]
    unfold memblockAddRange at added
    simp only at added
    split at added
    · cases added
    · split at added
      · cases added
      · split at added
        · cases added
        · split at added
          · exact (Except.error.inj added).symm
          · cases added

/-- `memblock_alloc_range_nid` hands out the highest suitable place and reserves exactly its
bytes; or there is no suitable place and it returns `0` without a change; or the place it
found does not fit into the array of reserved regions any more. -/
theorem memblockAllocRangeNid_spec (arranged : memblock.Arranged)
    (running : memblock.stopped = false) {size align : UInt64} (positive : 0 < size.toNat)
    {shift : Nat} (power : align.toNat = 2 ^ shift) :
    (∃ found reserved,
      memblockAllocRangeNid memblock size align = .ok (found, { memblock with reserved }) ∧
      IsGreatest {address | Suitable memblock size align address} found.toNat ∧
      reserved.covered = memblock.reserved.covered ∪
        Set.Ico found.toNat (found.toNat + size.toNat)) ∨
    (memblockAllocRangeNid memblock size align = .ok (0, memblock) ∧
      ∀ address, ¬ Suitable memblock size align address) ∨
    ∃ found : UInt64, IsGreatest {address | Suitable memblock size align address} found.toNat ∧
      memblockReserve memblock found size = .error (.panic "overflow\n") ∧
      memblockAllocRangeNid memblock size align = .error (.panic "overflow\n") := by
  have nonzero : align ≠ 0 := by
    intro zero
    rw [zero] at power
    exact absurd power (Nat.two_pow_pos shift).ne
  have code : memblockAllocRangeNid memblock size align =
      memblockFindInRangeNode memblock size align >>= fun found =>
        if found = 0 then pure (0, memblock)
        else memblockReserve memblock found size >>= fun after => pure (found, after) := by
    simp [memblockAllocRangeNid, running, nonzero]
  rcases memblockFindInRangeNode_spec arranged power positive with ⟨found, search, greatest⟩ |
    ⟨search, none⟩
  · have suitable : Suitable memblock size align found.toNat := greatest.1
    have found_ne : found ≠ 0 := by
      intro zero
      have above := suitable.above
      rw [zero] at above
      exact absurd above (by decide)
    have next : memblockAllocRangeNid memblock size align =
        memblockReserve memblock found size >>= fun after => pure (found, after) := by
      rw [code, search]
      exact if_neg found_ne
    cases reserves : memblockReserve memblock found size with
    | ok after =>
      obtain ⟨reserved, added, rfl⟩ := memblockReserve_ok.mp reserves
      obtain ⟨_, union, _⟩ := memblockAddRange_spec arranged.reserved added
      refine Or.inl ⟨found, reserved, ?_, greatest, ?_⟩
      · rw [next, reserves]
        rfl
      · rw [union, requested_of_limited suitable]
    | error fault =>
      have overflow := memblockReserve_error reserves
      refine Or.inr (Or.inr ⟨found, greatest, by rw [reserves, overflow], ?_⟩)
      rw [next, reserves, overflow]
      rfl
  · refine Or.inr (Or.inl ⟨?_, none⟩)
    rw [code, search]
    rfl

/-- A page from the top of the only memory region. -/
theorem memblockAllocRangeNid_spec_page :
    ∃ memblock, memblock.Arranged ∧ memblock.stopped = false ∧
      memblock.memory.regions = [⟨0x1000, 0x3800⟩] ∧
      ∃ found reserved,
        memblockAllocRangeNid memblock 0x1000 0x1000 = .ok (found, { memblock with reserved }) ∧
        IsGreatest {address | Suitable memblock 0x1000 0x1000 address} found.toNat ∧
        reserved.covered = memblock.reserved.covered ∪
          Set.Ico found.toNat (found.toNat + (0x1000 : UInt64).toNat) := by
  have ran : Run.run memblockCall initialMemblock [.add 0x1000 0x3800] = .ok _ := rfl
  have arranged := (normalised_of_run ran).arranged
  refine ⟨_, arranged, rfl, rfl, ?_⟩
  have power : (0x1000 : UInt64).toNat = 2 ^ 12 := rfl
  rcases memblockAllocRangeNid_spec arranged rfl (show 0 < (0x1000 : UInt64).toNat by decide)
    power with here | ⟨none, _⟩ | ⟨_, _, _, overflow⟩
  · exact here
  · exact absurd (congrArg Prod.fst (Except.ok.inj none)) (by decide)
  · cases overflow

end Xlinux
