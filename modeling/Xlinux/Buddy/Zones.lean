/-
This file models how `free_area_init` of `buddy/buddy.c` measures the zones of
the node. The limits of the zones are clamped into the page frames of the node,
and the pages of each region, clamped into a zone in turn, are taken off the
pages the zone spans to get its holes. The sizes come out as counts: the pages
in the window of a zone, and the pages of the regions in that window.
-/

import Xlinux.Buddy.PageAlloc
import Xlinux.Lib.SpanCount

namespace Xlinux

open Spans Iterate List UInt64 Nat
open Function (update)

variable {memory : MemblockType}

/-! ### The page frames of the regions -/

/-- A range of page frame numbers. -/
structure PfnRange where
  start : UInt64
  stop : UInt64
  deriving DecidableEq, Repr

/-- The variables of a `for_each_mem_pfn_range` loop. -/
structure PfnCursor where
  idx : Int
  range : PfnRange
  deriving DecidableEq, Repr

/-- The page frames of a region, both ends rounded inward. -/
def MemblockRegion.pfnRange (r : MemblockRegion) : PfnRange :=
  ⟨pfnUp r.base, pfnDown (r.base + r.size)⟩

/-- The loop of `__next_mem_pfn_range`, which skips regions without a page. -/
def nextPfnLoop (memory : MemblockType) (out : PfnRange) : Nat → Int → Kernel PfnCursor
  | 0, _ => .error .endless
  | turns + 1, idx =>
    if (ofCInt (idx + 1)).toNat < memory.cnt then
      match memory.region (idx + 1) with
      | .error fault => .error fault
      | .ok r =>
        if r.pfnRange.start ≥ r.pfnRange.stop then nextPfnLoop memory out turns (idx + 1)
        else .ok ⟨idx + 1, r.pfnRange⟩
    else .ok ⟨-1, out⟩

/-- `__next_mem_pfn_range`. -/
def nextMemPfnRange (memory : MemblockType) (cursor : PfnCursor) : Kernel PfnCursor :=
  nextPfnLoop memory cursor.range (memory.cnt + 1) cursor.idx

/-- The control part of `for_each_mem_pfn_range`. -/
def memPfnRanges (memory : MemblockType) : Iteration Fault PfnCursor PfnRange where
  next := nextMemPfnRange memory
  stopped := fun cursor => cursor.idx < 0
  value := PfnCursor.range

/-- `for_each_mem_pfn_range(i, &start_pfn, &end_pfn) body`. -/
def forEachMemPfnRange {State : Type} (memory : MemblockType) (body : State → PfnRange → State)
    (state : State) : Kernel State :=
  loopEnd <$> forEach (memPfnRanges memory) .endless
    (fun state range => .ok (.inr (body state range))) (memory.cnt + 1) state ⟨-1, 0, 0⟩

/-- `get_pfn_range_for_nid`. -/
def getPfnRangeForNid (memory : MemblockType) : Kernel PfnRange := do
  let range ← forEachMemPfnRange memory
    (fun (range this : PfnRange) => ⟨cmin range.start this.start, cmax range.stop this.stop⟩)
    ⟨ullongMax, 0⟩
  return if range.start = ullongMax then { range with start := 0 } else range

/-! ### The sizes of the zones -/

/-- `ZONE_MOVABLE`, after `ZONE_DMA32` and `ZONE_NORMAL`. -/
def zoneMovable : Nat := 2

/-- `zone_spanned_pages_in_node`: the number of pages, and the zone's range, which is read only
if that number is not zero. -/
def zoneSpannedPagesInNode (bounds node : PfnRange) : UInt64 × PfnRange :=
  if node.start = 0 ∧ node.stop = 0 then (0, ⟨0, 0⟩)
  else
    let zone : PfnRange :=
      ⟨clamp node.start bounds.start bounds.stop, clamp node.stop bounds.start bounds.stop⟩
    if zone.stop < node.start ∨ zone.start > node.stop then (0, zone)
    else
      let zone : PfnRange := ⟨cmax zone.start node.start, cmin zone.stop node.stop⟩
      (zone.stop - zone.start, zone)

/-- `__absent_pages_in_range`. -/
def absentPagesInRange (memory : MemblockType) (range : PfnRange) : Kernel UInt64 :=
  forEachMemPfnRange memory (fun nrAbsent this => nrAbsent -
      (clamp this.stop range.start range.stop - clamp this.start range.start range.stop))
    (range.stop - range.start)

/-- `zone_absent_pages_in_node`. -/
def zoneAbsentPagesInNode (memory : MemblockType) (bounds node : PfnRange) : Kernel UInt64 :=
  if node.start = 0 ∧ node.stop = 0 then return 0
  else absentPagesInRange memory
    ⟨clamp node.start bounds.start bounds.stop, clamp node.stop bounds.start bounds.stop⟩

/-- The fields of `struct zone` that say where its pages are. -/
structure ZoneSize where
  zoneStartPfn : UInt64
  spannedPages : UInt64
  presentPages : UInt64
  deriving DecidableEq, Repr

/-- `struct pglist_data`, with the sizes of its zones by number. -/
structure NodeData where
  nodeStartPfn : UInt64
  nodeSpannedPages : UInt64
  nodePresentPages : UInt64
  zones : Nat → ZoneSize

/-- What `calculate_node_totalpages` stores for one zone. -/
def zoneSize (memory : MemblockType) (bounds node : PfnRange) : Kernel ZoneSize := do
  let (spanned, zone) := zoneSpannedPagesInNode bounds node
  let absent ← zoneAbsentPagesInNode memory bounds node
  return ⟨if spanned ≠ 0 then zone.start else 0, spanned, spanned - absent⟩

/-- The body of the loop of `calculate_node_totalpages`; the totals are fields of the node. -/
def calculateZone (memory : MemblockType) (bounds : Nat → PfnRange) (range : PfnRange)
    (node : NodeData) (zoneType : Nat) : Kernel NodeData := do
  let size ← zoneSize memory (bounds zoneType) range
  return { node with
    nodeSpannedPages := node.nodeSpannedPages + size.spannedPages
    nodePresentPages := node.nodePresentPages + size.presentPages
    zones := update node.zones zoneType size }

/-- `calculate_node_totalpages`. -/
def calculateNodeTotalpages (memory : MemblockType) (bounds : Nat → PfnRange) (range : PfnRange) :
    Kernel NodeData :=
  (List.range maxNrZones).foldlM (calculateZone memory bounds range)
    ⟨range.start, 0, 0, fun _ => ⟨0, 0, 0⟩⟩

/-- The body of the loop of `free_area_init`, with `start_pfn` and the arrays
`arch_zone_lowest_possible_pfn` and `arch_zone_highest_possible_pfn`. -/
def boundZone (maxZonePfn : Nat → UInt64) (found : UInt64 × (Nat → PfnRange)) (zoneType : Nat) :
    UInt64 × (Nat → PfnRange) :=
  if zoneType = zoneMovable then found
  else
    let endPfn := cmax (maxZonePfn zoneType) found.1
    (endPfn, update found.2 zoneType ⟨found.1, endPfn⟩)

/-- The limits that `free_area_init` gives the zones. -/
def archZoneBounds (maxZonePfn : Nat → UInt64) (startPfn : UInt64) : Nat → PfnRange :=
  ((List.range maxNrZones).foldl (boundZone maxZonePfn) (startPfn, fun _ => ⟨0, 0⟩)).2

/-- `memblock_start_of_DRAM`. -/
def memblockStartOfDRAM (memory : MemblockType) : Kernel UInt64 := do
  let r ← memory.region 0
  return r.base

/-- `memblock_end_of_DRAM`. -/
def memblockEndOfDRAM (memory : MemblockType) : Kernel UInt64 := do
  let r ← memory.region (memory.cnt - 1)
  return r.base + r.size

/-- The sizes that `free_area_init` and `free_area_init_node` compute. -/
def freeAreaInit (memory : MemblockType) (maxZonePfn : Nat → UInt64) : Kernel NodeData := do
  let start ← memblockStartOfDRAM memory
  let range ← getPfnRangeForNid memory
  calculateNodeTotalpages memory (archZoneBounds maxZonePfn (pfnDown start)) range

/-- The array that `zone_sizes_init` passes; `ZONE_DMA32` ends at 4 GiB. -/
def maxZonePfns (maxLowPfn : UInt64) (zoneType : Nat) : UInt64 :=
  if zoneType = 0 then cmin (pfnDown (4 * 0x40000000)) maxLowPfn
  else if zoneType = 1 then maxLowPfn
  else 0

/-- `zone_sizes_init`, with `max_low_pfn` as `init_module` sets it. -/
def zoneSizesInit (memory : MemblockType) : Kernel NodeData := do
  let limit ← memblockEndOfDRAM memory
  freeAreaInit memory (maxZonePfns (pfnDown limit))

/-! ### The loops over the regions -/

/-- The page frames of the regions from one on, without the regions that have none. -/
def MemblockType.pfnRangesFrom (memory : MemblockType) (idx : Nat) : List PfnRange :=
  ((memory.regions.drop idx).map MemblockRegion.pfnRange).filter
    fun range => range.start < range.stop

/-- The page frames that `for_each_mem_pfn_range` goes through. -/
def MemblockType.pfnRanges (memory : MemblockType) : List PfnRange := memory.pfnRangesFrom 0

/-- The cursor stands before the ranges of the regions from some index on. -/
def PfnAt (memory : MemblockType) (cursor : PfnCursor) (ranges : List PfnRange) : Prop :=
  ∃ idx : Nat, cursor.idx = idx - 1 ∧ idx ≤ memory.cnt ∧ ranges = memory.pfnRangesFrom idx

theorem nextPfnLoop_spec (small : memory.cnt < 2 ^ 31 - 1) (out : PfnRange) (turns idx : Nat)
    (bound : idx ≤ memory.cnt) (enough : memory.cnt - idx < turns) :
    ∃ after, nextPfnLoop memory out turns (idx - 1) = .ok after ∧
      (after.idx < 0 ∧ memory.pfnRangesFrom idx = [] ∨
        ¬ after.idx < 0 ∧ ∃ rest, memory.pfnRangesFrom idx = after.range :: rest ∧
          PfnAt memory after rest) := by
  induction turns generalizing idx with
  | zero => omega
  | succ turns ih =>
    rw [nextPfnLoop, sub_add_cancel, toNat_ofCInt_natCast (by omega)]
    split_ifs with inside
    · have found : memory.regions[idx]? = some memory.regions[idx] :=
        getElem?_eq_getElem inside
      have first : memory.regions.drop idx = memory.regions[idx] :: memory.regions.drop (idx + 1) :=
        drop_eq_getElem_cons inside
      rw [region_of_getElem? found, MemblockType.pfnRangesFrom, first, map_cons]
      dsimp only
      split_ifs with empty
      · rw [filter_cons_of_neg (by simpa using empty)]
        have later := ih (idx + 1) inside (by omega)
        rw [cast_add, cast_one, add_sub_cancel_right] at later
        exact later
      · rw [filter_cons_of_pos (by simpa using empty)]
        refine ⟨_, rfl, Or.inr ⟨by simp, _, rfl, idx + 1, ?_, inside, rfl⟩⟩
        rw [cast_add, cast_one, add_sub_cancel_right]
    · rw [MemblockType.pfnRangesFrom, drop_of_length_le (not_lt.mp inside)]
      exact ⟨_, rfl, Or.inl ⟨Int.negSucc_lt_zero 0, rfl⟩⟩

theorem memPfnRanges_yields (small : memory.cnt < 2 ^ 31 - 1) :
    Yields (memPfnRanges memory) ⟨-1, 0, 0⟩ memory.pfnRanges := by
  have step : Simulates (memPfnRanges memory) id (PfnAt memory) := by
    rintro ⟨_, out⟩ _ ⟨idx, rfl, bound, rfl⟩
    obtain ⟨after, runs, ended | ⟨going, rest⟩⟩ :=
      nextPfnLoop_spec small out (memory.cnt + 1) idx bound (by omega)
    · exact ⟨after, runs, Or.inl ⟨decide_eq_true ended.1, ended.2⟩⟩
    · exact ⟨after, runs, Or.inr ⟨decide_eq_false going, rest⟩⟩
  exact step.yields_self ⟨0, rfl, zero_le _, rfl⟩

theorem forEachMemPfnRange_eq {State : Type}
    (small : memory.cnt < 2 ^ 31 - 1) (body : State → PfnRange → State) (state : State) :
    forEachMemPfnRange memory body state = .ok (memory.pfnRanges.foldl body state) := by
  have count : memory.pfnRanges.length < memory.cnt + 1 := by
    refine lt_succ_of_le ((length_filter_le _ _).trans_eq ?_)
    rw [length_map]
    rfl
  rw [forEachMemPfnRange, forEach_of_yields (memPfnRanges_yields small) _ _ count,
    each_of_total body fun _ _ => rfl]
  rfl

/-! ### The range of the node -/

/-- A range as a span of numbers. -/
def PfnRange.span (range : PfnRange) : Span Nat := ⟨range.start.toNat, range.stop.toNat⟩

theorem filled_pfnRanges :
    ∀ range ∈ memory.pfnRanges, range.start.toNat < range.stop.toNat := fun _ member =>
  UInt64.lt_iff_toNat_lt.mp (of_decide_eq_true (mem_filter.mp member).2)

theorem cmin_eq_min (a b : UInt64) : cmin a b = min a b := by
  show (if a < b then a else b) = if a ≤ b then a else b
  grind

theorem cmax_eq_max (a b : UInt64) : cmax a b = max a b := by
  show (if a > b then a else b) = if a ≤ b then b else a
  grind

instance lawfulOrderMax : Std.LawfulOrderMax UInt64 where
  max_le_iff a b c := by
    show (if a ≤ b then b else a) ≤ c ↔ _
    grind
  max_eq_or a b := by
    show (if a ≤ b then b else a) = _ ∨ (if a ≤ b then b else a) = _
    grind

theorem foldl_hull (first : PfnRange) (ranges : List PfnRange) :
    ranges.foldl
      (fun range this => ⟨cmin range.start this.start, cmax range.stop this.stop⟩) first =
      ⟨(ranges.map PfnRange.start).foldl min first.start,
        (ranges.map PfnRange.stop).foldl max first.stop⟩ := by
  induction ranges generalizing first with
  | nil => rfl
  | cons range rest ih =>
    rw [foldl_cons, ih, cmin_eq_min, cmax_eq_max]
    rfl

/-- What `get_pfn_range_for_nid` finds: the hull of the ranges, or nothing. -/
structure Hull (node : PfnRange) (ranges : List PfnRange) : Prop where
  ends : ranges = [] ∧ node = ⟨0, 0⟩ ∨
    (∃ range ∈ ranges, node.start = range.start) ∧ ∃ range ∈ ranges, node.stop = range.stop
  inside : ∀ range ∈ ranges,
    node.start.toNat ≤ range.start.toNat ∧ range.stop.toNat ≤ node.stop.toNat

theorem getPfnRangeForNid_spec (small : memory.cnt < 2 ^ 31 - 1) :
    ∃ node, getPfnRangeForNid memory = .ok node ∧ Hull node memory.pfnRanges := by
  rw [getPfnRangeForNid, forEachMemPfnRange_eq small, foldl_hull]
  have filled := @filled_pfnRanges memory
  generalize memory.pfnRanges = ranges at filled
  have low := min?_eq_some_iff.mp (@min?_cons' _ ullongMax _ (ranges.map PfnRange.start))
  have high := max?_eq_some_iff.mp (@max?_cons' _ 0 _ (ranges.map PfnRange.stop))
  generalize (ranges.map PfnRange.start).foldl min ullongMax = start at low
  generalize (ranges.map PfnRange.stop).foldl max 0 = stop at high
  simp only [mem_cons, forall_eq_or_imp, mem_map, forall_exists_index, and_imp,
    forall_apply_eq_imp_iff₂, le_iff_toNat_le] at low high
  refine ⟨_, rfl, ?_⟩
  cases ranges with
  | nil =>
    obtain rfl := low.1.resolve_right (by simp)
    obtain rfl := high.1.resolve_right (by simp)
    exact ⟨.inl ⟨rfl, rfl⟩, nofun⟩
  | cons range rest =>
    -- every range starts below the initial value, and ends above zero
    have first := filled range mem_cons_self
    have running : start ≠ ullongMax := by
      rintro rfl
      exact absurd (toNat_lt range.stop) (not_lt.mpr ((low.2.2 range mem_cons_self).trans_lt first))
    have moved : stop ≠ 0 := by
      rintro rfl
      exact absurd (high.2.2 range mem_cons_self) (not_le.mpr (zero_lt_of_lt first))
    rw [if_neg running]
    exact ⟨.inr ⟨(low.1.resolve_left running).imp fun _ found => ⟨found.1, found.2.symm⟩,
      (high.1.resolve_left moved).imp fun _ found => ⟨found.1, found.2.symm⟩⟩,
      fun range member => ⟨low.2.2 range member, high.2.2 range member⟩⟩

/-! ### One zone -/

theorem toNat_clamp_eq (val lo hi : UInt64) :
    (clamp val lo hi).toNat = clampNat lo.toNat hi.toNat val.toNat :=
  toNat_clamp val lo hi

/-- The loop of `__absent_pages_in_range` takes off the pages of the ranges in the window. -/
theorem foldl_absent {ranges : List PfnRange} (window : PfnRange)
    (filled : ∀ range ∈ ranges, range.start.toNat < range.stop.toNat) (count : UInt64) :
    ranges.foldl (fun nrAbsent this => nrAbsent -
      (clamp this.stop window.start window.stop - clamp this.start window.start window.stop))
        count =
      count - UInt64.ofNat ((ranges.map PfnRange.span).map
        (Span.within window.start.toNat window.stop.toNat)).sum := by
  induction ranges generalizing count with
  | nil => exact (UInt64.sub_zero count).symm
  | cons range rest ih =>
    have ordered := filled range mem_cons_self
    have part : clamp range.stop window.start window.stop -
        clamp range.start window.start window.stop =
        ofNat (range.span.within window.start.toNat window.stop.toNat) := by
      have less : (clamp range.start window.start window.stop).toNat ≤
          (clamp range.stop window.start window.stop).toNat := by
        rw [toNat_clamp, toNat_clamp]
        omega
      refine UInt64.toNat_inj.mp ?_
      rw [toNat_sub_of_toNat_le less, toNat_clamp_eq, toNat_clamp_eq, toNat_ofNat', mod_eq_of_lt]
      · rfl
      · have bound := toNat_lt window.stop
        unfold Span.within clampNat
        omega
    rw [foldl_cons, map_cons, map_cons, sum_cons, ofNat_add]
    grind

/-- The limits of a zone clamped into the node, as numbers. -/
def window (bounds node : PfnRange) : Span Nat :=
  ⟨clampNat bounds.start.toNat bounds.stop.toNat node.start.toNat,
    clampNat bounds.start.toNat bounds.stop.toNat node.stop.toNat⟩

section

variable {bounds node : PfnRange} (limits : bounds.start.toNat ≤ bounds.stop.toNat)
  (forward : node.start.toNat ≤ node.stop.toNat)

include limits forward

/-- Where the node has no page inside the limits, its clamped range is empty, so the early
returns of `zone_spanned_pages_in_node` agree with the difference at its end. -/
theorem zoneSpannedPagesInNode_spec :
    (zoneSpannedPagesInNode bounds node).1.toNat = (window bounds node).size ∧
      (0 < (window bounds node).size →
        (zoneSpannedPagesInNode bounds node).2.start.toNat = (window bounds node).lo) := by
  have startClamped := toNat_clamp_eq node.start bounds.start bounds.stop
  have stopClamped := toNat_clamp_eq node.stop bounds.start bounds.stop
  have startCases := clampNat_cases limits node.start.toNat
  have stopCases := clampNat_cases limits node.stop.toNat
  unfold zoneSpannedPagesInNode
  simp only [window, Span.size, lt_iff_toNat_lt]
  split
  · rename_i empty
    rw [empty.1, empty.2]
    exact ⟨(Nat.sub_self _).symm, fun positive => absurd positive (by rw [Nat.sub_self]; omega)⟩
  · split
    · rename_i outside
      rw [UInt64.toNat_zero]
      omega
    · rename_i inside
      have start : (cmax (clamp node.start bounds.start bounds.stop) node.start).toNat =
          clampNat bounds.start.toNat bounds.stop.toNat node.start.toNat := by
        rw [toNat_cmax]
        omega
      have stop : (cmin (clamp node.stop bounds.start bounds.stop) node.stop).toNat =
          clampNat bounds.start.toNat bounds.stop.toNat node.stop.toNat := by
        rw [toNat_cmin]
        omega
      rw [toNat_sub_of_toNat_le (by omega), start, stop]
      exact ⟨rfl, fun _ => rfl⟩

/-- The page frames of a zone. -/
def ZoneSize.span (size : ZoneSize) : Finset Nat :=
  Finset.Ico size.zoneStartPfn.toNat (size.zoneStartPfn.toNat + size.spannedPages.toNat)

/-- The size of a zone counts its window and the pages of the ranges in it. -/
structure Measures (ranges : List PfnRange) (window : Span Nat) (size : ZoneSize) : Prop where
  spanned : size.spannedPages.toNat = window.size
  span : size.span = Finset.Ico window.lo window.hi
  present : size.presentPages =
    UInt64.ofNat ((ranges.map PfnRange.span).map (Span.within window.lo window.hi)).sum

theorem zoneSize_spec (small : memory.cnt < 2 ^ 31 - 1) :
    ∃ size, zoneSize memory bounds node = .ok size ∧
      Measures memory.pfnRanges (window bounds node) size := by
  obtain ⟨count, start⟩ := zoneSpannedPagesInNode_spec limits forward
  have absent : ∃ absent, zoneAbsentPagesInNode memory bounds node = .ok absent ∧
      (zoneSpannedPagesInNode bounds node).1 - absent =
        ofNat ((memory.pfnRanges.map PfnRange.span).map
          (Span.within (window bounds node).lo (window bounds node).hi)).sum := by
    rw [zoneAbsentPagesInNode]
    split
    · rename_i empty
      refine ⟨0, rfl, ?_⟩
      have same : (window bounds node).hi ≤ (window bounds node).lo := by
        rw [window, empty.1, empty.2]
      rw [zoneSpannedPagesInNode, if_pos empty, sum_within_empty _ same]
      rfl
    · rw [absentPagesInRange, forEachMemPfnRange_eq small, foldl_absent _ filled_pfnRanges]
      rw [toNat_clamp_eq, toNat_clamp_eq]
      refine ⟨_, rfl, ?_⟩
      have difference : (zoneSpannedPagesInNode bounds node).1 =
          clamp node.stop bounds.start bounds.stop - clamp node.start bounds.start bounds.stop := by
        refine UInt64.toNat_inj.mp (count.trans ?_)
        rw [toNat_sub_of_toNat_le, toNat_clamp_eq, toNat_clamp_eq]
        · rfl
        · rw [toNat_clamp, toNat_clamp]
          omega
      have cancel : ∀ whole rest : UInt64, whole - (whole - rest) = rest := by grind
      rw [difference, cancel]
      rfl
  obtain ⟨absent, found, present⟩ := absent
  rcases measured : zoneSpannedPagesInNode bounds node with ⟨spanned, zone⟩
  rw [measured] at count start present
  rw [zoneSize, found, measured]
  refine ⟨_, rfl, count, ?_, present⟩
  dsimp only [ZoneSize.span] at count start ⊢
  rw [count]
  by_cases filled : 0 < (window bounds node).size
  · have nonzero : spanned ≠ 0 := by
      intro zero
      rw [zero, UInt64.toNat_zero] at count
      omega
    rw [if_pos nonzero, start filled]
    unfold Span.size at filled ⊢
    congr 1
    omega
  · have zero : (window bounds node).size = 0 := Nat.eq_zero_of_not_pos filled
    rw [zero, add_zero, Finset.Ico_self, Finset.Ico_eq_empty_of_le (Nat.le_of_sub_eq_zero zero)]

end

/-! ### The node -/

/-- All regions lie between the start of one and the end of another. -/
def MemblockType.Between (memory : MemblockType) (first last : MemblockRegion) : Prop :=
  ∀ region ∈ memory.regions, first.span.lo ≤ region.span.lo ∧ region.span.hi ≤ last.span.hi

/-- The first and the last region bound the others. -/
theorem MemblockType.Arranged.ends (arranged : memory.Arranged) :
    ∃ first ∈ memory.regions, ∃ last ∈ memory.regions, memory.region 0 = .ok first ∧
      memory.region (memory.cnt - 1) = .ok last ∧ memory.Between first last := by
  have positive : 0 < memory.regions.length := by
    refine length_pos_iff.mpr ?_
    rcases arranged.shape with dummy | ⟨nonempty, _⟩
    · rw [dummy]
      exact cons_ne_nil _ _
    · exact nonempty
  obtain ⟨inside, _, ordered⟩ := arranged.ordered
  rw [spansOf, pairwise_map, pairwise_iff_getElem] at ordered
  have lastIndex : memory.regions.length - 1 < memory.regions.length := by omega
  have index : ((memory.cnt : Int) - 1) = ((memory.regions.length - 1 : Nat) : Int) := by
    rw [MemblockType.cnt]
    omega
  refine ⟨memory.regions[0], getElem_mem positive,
    memory.regions[memory.regions.length - 1], getElem_mem lastIndex,
    region_of_getElem? (getElem?_eq_getElem positive), ?_, fun region member => ?_⟩
  · rw [index]
    exact region_of_getElem? (getElem?_eq_getElem lastIndex)
  · obtain ⟨place, bound, rfl⟩ := getElem_of_mem member
    have forward : ∀ region ∈ memory.regions, region.span.lo ≤ region.span.hi :=
      fun region member => (inside _ (mem_map_of_mem member)).2.1
    constructor
    · rcases Nat.eq_zero_or_pos place with rfl | later
      · exact le_rfl
      · exact (forward _ (getElem_mem positive)).trans (ordered 0 place positive bound later).1
    · rcases lt_or_ge place (memory.regions.length - 1) with before | after
      · exact (ordered place _ bound lastIndex before).1.trans (forward _ (getElem_mem lastIndex))
      · have same : place = memory.regions.length - 1 := by omega
        subst same
        exact le_rfl

/-- The window of a zone, with the ends of the memory and the node's range. -/
def zoneWindow (start limit : UInt64) (range : PfnRange) (zoneType : Nat) : Span Nat :=
  window (archZoneBounds (maxZonePfns (pfnDown limit)) (pfnDown start) zoneType) range

/-- The zones have these windows, and the node has the present pages of its zones. -/
structure NodeData.Sized (node : NodeData) (memory : MemblockType) (windows : Nat → Span Nat) :
    Prop where
  measures : ∀ zoneType < maxNrZones,
    Measures memory.pfnRanges (windows zoneType) (node.zones zoneType)
  total : node.nodePresentPages = (node.zones 0).presentPages + (node.zones 1).presentPages +
    (node.zones 2).presentPages

/-- The zones by their number. -/
theorem forall_zoneType {motive : Nat → Prop} (dma32 : motive 0) (normal : motive 1)
    (movable : motive 2) : ∀ zoneType < maxNrZones, motive zoneType
  | 0, _ => dma32
  | 1, _ => normal
  | 2, _ => movable
  | _ + 3, inside => absurd inside (by unfold maxNrZones; omega)

theorem archZoneBounds_le (maxLowPfn startPfn : UInt64) : ∀ zoneType < maxNrZones,
    (archZoneBounds (maxZonePfns maxLowPfn) startPfn zoneType).start.toNat ≤
      (archZoneBounds (maxZonePfns maxLowPfn) startPfn zoneType).stop.toNat := by
  have grows : ∀ first second : UInt64, second.toNat ≤ (cmax first second).toNat :=
    fun first second => (le_max_right _ _).trans_eq (toNat_cmax first second).symm
  exact forall_zoneType (grows _ _) (grows _ _) le_rfl

/-- The sizes that `zone_sizes_init` computes, as counts over the regions. -/
theorem zoneSizesInit_spec (arranged : memory.Arranged) {start limit : UInt64}
    (starts : memblockStartOfDRAM memory = .ok start)
    (ends : memblockEndOfDRAM memory = .ok limit) :
    ∃ node range, zoneSizesInit memory = .ok node ∧ Hull range memory.pfnRanges ∧
      node.Sized memory (zoneWindow start limit range) := by
  obtain ⟨range, found, hull⟩ := getPfnRangeForNid_spec arranged.small
  have forward : range.start.toNat ≤ range.stop.toNat := by
    rcases hull.ends with ⟨_, rfl⟩ | ⟨⟨first, member, same⟩, _⟩
    · exact le_rfl
    · have filled := filled_pfnRanges first member
      have high := (hull.inside first member).2
      rw [same]
      omega
  have sizes : ∀ zoneType < maxNrZones, ∃ size, zoneSize memory
      (archZoneBounds (maxZonePfns (pfnDown limit)) (pfnDown start) zoneType) range = .ok size ∧
        Measures memory.pfnRanges (zoneWindow start limit range zoneType) size :=
    fun zoneType inside => zoneSize_spec (archZoneBounds_le _ _ _ inside) forward arranged.small
  obtain ⟨dma32, foundDma32, measuresDma32⟩ := sizes 0 (by decide)
  obtain ⟨normal, foundNormal, measuresNormal⟩ := sizes 1 (by decide)
  obtain ⟨movable, foundMovable, measuresMovable⟩ := sizes 2 (by decide)
  refine ⟨?node, range, ?runs, hull, ?sized⟩
  case runs =>
    rw [zoneSizesInit, ends, Kernel.ok_bind, freeAreaInit, starts, Kernel.ok_bind, found,
      Kernel.ok_bind, calculateNodeTotalpages, show List.range maxNrZones = [0, 1, 2] from rfl]
    simp only [foldlM_cons, calculateZone, foundDma32, foundNormal, foundMovable]
    rfl
  case sized =>
    refine ⟨forall_zoneType measuresDma32 measuresNormal measuresMovable, ?_⟩
    show 0 + dma32.presentPages + normal.presentPages + movable.presentPages = _
    rw [UInt64.zero_add]
    rfl

end Xlinux
