/-
This file proves when the sizes of the zones are exact. The start of a region is
rounded up to a page, which wraps for a region that starts within the last page
of the address space. Such a region counts as all the pages from `0` on, so the
sizes are exact if and only if there is no such region or every region lies in
that last page.
-/

import Xlinux.Buddy.Zones

namespace Xlinux

open Spans List UInt64 Nat

/-! ### The sizes and the memory -/

/-- The pages that lie wholly inside a region, both ends rounded without wrapping. -/
def MemblockRegion.pageSpan (region : MemblockRegion) : Span Nat :=
  ⟨(region.span.lo + 4095) / 4096, region.span.hi / 4096⟩

/-- The page lies wholly inside one region of the memory. -/
def MemblockType.HasPage (memory : MemblockType) (pfn : Nat) : Prop :=
  ∃ region ∈ memory.regions, pageBytes pfn ⊆ region.span.points

theorem MemblockType.covers_pageSpans (memory : MemblockType) (pfn : Nat) :
    Covers (memory.regions.map MemblockRegion.pageSpan) pfn ↔ memory.HasPage pfn := by
  simp only [Covers, mem_map, exists_exists_and_eq_and]
  refine exists_congr fun region => and_congr_right fun _ => ?_
  rw [pageBytes_subset_iff, MemblockRegion.pageSpan]
  dsimp only
  omega

instance (memory : MemblockType) (pfn : Nat) : Decidable (memory.HasPage pfn) :=
  decidable_of_iff _ (memory.covers_pageSpans pfn)

/-- The sizes of the zones are exact: the zones are disjoint and ascending, together they are
the pages from the first page of the memory to the last, the present pages of each are its pages
less its holes, and the present pages of the node are the pages of all regions. -/
structure NodeData.Exact (node : NodeData) (memory : MemblockType) : Prop where
  ascending : ∀ first second, first < second → second < maxNrZones →
    ∀ low ∈ (node.zones first).span, ∀ high ∈ (node.zones second).span, low < high
  covers : ∀ pfn, (∃ zoneType < maxNrZones, pfn ∈ (node.zones zoneType).span) ↔
    ∃ first last, memory.HasPage first ∧ memory.HasPage last ∧ first ≤ pfn ∧ pfn ≤ last
  present : ∀ zoneType < maxNrZones, (node.zones zoneType).presentPages.toNat +
    ((node.zones zoneType).span.filter fun pfn => ¬ memory.HasPage pfn).card =
      (node.zones zoneType).spannedPages.toNat
  nodePresent : node.nodePresentPages.toNat = (memory.regions.map fun region =>
    region.span.hi / 4096 - (region.span.lo + 4095) / 4096).sum

theorem span_pfnRange {region : MemblockRegion} (fit : region.span.hi ≤ physAddrMax.toNat) :
    region.pfnRange.span = ⟨if region.base.toNat ≤ 2 ^ 64 - 4096 then region.pageSpan.lo else 0,
      region.pageSpan.hi⟩ := by
  rw [PfnRange.span, MemblockRegion.pfnRange, toNat_pfnUp, toNat_pfnDown, toNat_end fit]
  rfl

section Memory

variable {memory : MemblockType} (arranged : memory.Arranged) {range : PfnRange}
  {first last : MemblockRegion} {region : MemblockRegion}

/-- Counting the ranges in a window counts the regions as they round. -/
theorem sum_pfnRanges (lo hi : Nat) :
    ((memory.pfnRanges.map PfnRange.span).map (Span.within lo hi)).sum =
      (memory.regions.map fun region => region.pfnRange.span.within lo hi).sum := by
  have filtered : memory.pfnRanges.map PfnRange.span =
      ((memory.regions.map MemblockRegion.pfnRange).map PfnRange.span).filter
        fun span => span.lo < span.hi := by
    rw [filter_map, MemblockType.pfnRanges, MemblockType.pfnRangesFrom]
    refine congrArg (map PfnRange.span) (filter_congr fun range _ => ?_)
    exact decide_eq_decide.mpr lt_iff_toNat_lt
  rw [filtered, sum_within_filter, map_map, map_map]
  rfl

/-- No region starts in the last page after its first byte, so every start can be rounded up. -/
def MemblockType.StartsLow (memory : MemblockType) : Prop :=
  ∀ region ∈ memory.regions, region.base.toNat ≤ 2 ^ 64 - 4096

section

include arranged

theorem ascending_pageSpans : Ascending (memory.regions.map MemblockRegion.pageSpan) := by
  have ordered := arranged.ordered.2.2
  rw [spansOf, pairwise_map] at ordered
  rw [Ascending, pairwise_map]
  refine ordered.imp fun {first second} before => ?_
  show first.span.hi / 4096 ≤ (second.span.lo + 4095) / 4096
  omega

theorem pfnRange_span_of_low (low : memory.StartsLow) (member : region ∈ memory.regions) :
    region.pfnRange.span = region.pageSpan := by
  rw [span_pfnRange (arranged.fit region member), if_pos (low region member)]

theorem sum_pfnRanges_of_low (low : memory.StartsLow) (lo hi : Nat) :
    ((memory.pfnRanges.map PfnRange.span).map (Span.within lo hi)).sum =
      ((memory.regions.map MemblockRegion.pageSpan).map (Span.within lo hi)).sum := by
  rw [sum_pfnRanges, map_map]
  refine congrArg sum (map_congr_left fun region member => ?_)
  rw [pfnRange_span_of_low arranged low member]
  rfl

theorem card_hasPage (lo hi : Nat) : ((Finset.Ico lo hi).filter memory.HasPage).card =
    ((memory.regions.map MemblockRegion.pageSpan).map (Span.within lo hi)).sum := by
  rw [sum_within _ _ (ascending_pageSpans arranged)]
  refine congrArg Finset.card (Finset.filter_congr fun pfn _ => ?_)
  exact (memory.covers_pageSpans pfn).symm

/-- A zone that measures its window has as many present pages as the memory has in it. -/
theorem Measures.present_add_holes (low : memory.StartsLow) {window : Span Nat}
    (bound : window.hi < 2 ^ 64) {size : ZoneSize}
    (measures : Measures memory.pfnRanges window size) :
    size.presentPages.toNat + (size.span.filter fun pfn => ¬ memory.HasPage pfn).card =
      size.spannedPages.toNat := by
  have covered := card_hasPage arranged window.lo window.hi
  have parts := Finset.card_filter_add_card_filter_not (s := Finset.Ico window.lo window.hi)
    memory.HasPage
  rw [measures.present, sum_pfnRanges_of_low arranged low, measures.span, measures.spanned,
    ← covered, toNat_ofNat', mod_eq_of_lt, parts, card_Ico]
  · rfl
  · rw [card_Ico] at parts
    omega

end

/-! ### Regions that all round up -/

/-- The limit between `ZONE_DMA32` and `ZONE_NORMAL`. -/
def zoneLimit (start limit : UInt64) : Nat :=
  max (min 0x100000 (limit.toNat / 4096)) (start.toNat / 4096)

theorem toNat_archZoneBounds (start limit : UInt64) :
    (archZoneBounds (maxZonePfns (pfnDown limit)) (pfnDown start) 0).stop.toNat =
      zoneLimit start limit := by
  show (cmax (cmin (pfnDown (4 * 0x40000000)) (pfnDown limit)) (pfnDown start)).toNat = _
  rw [toNat_cmax, toNat_cmin, toNat_pfnDown, toNat_pfnDown, toNat_pfnDown]
  rfl

theorem zoneWindow_dma32 (start limit : UInt64) (range : PfnRange) :
    zoneWindow start limit range 0 =
      ⟨clampNat (start.toNat / 4096) (zoneLimit start limit) range.start.toNat,
        clampNat (start.toNat / 4096) (zoneLimit start limit) range.stop.toNat⟩ := by
  rw [zoneWindow, window, toNat_archZoneBounds, ← toNat_pfnDown start]
  rfl

theorem zoneWindow_normal (start limit : UInt64) (range : PfnRange) :
    zoneWindow start limit range 1 =
      ⟨clampNat (zoneLimit start limit) (max (limit.toNat / 4096) (zoneLimit start limit))
          range.start.toNat,
        clampNat (zoneLimit start limit) (max (limit.toNat / 4096) (zoneLimit start limit))
          range.stop.toNat⟩ := by
  rw [← toNat_archZoneBounds, ← toNat_pfnDown limit, ← toNat_cmax]
  rfl

theorem zoneWindow_movable (start limit : UInt64) (range : PfnRange) :
    zoneWindow start limit range 2 = ⟨0, 0⟩ := by
  show (⟨min (max range.start.toNat 0) 0, min (max range.stop.toNat 0) 0⟩ : Span Nat) = _
  rw [min_zero, min_zero]

/-- What the node's range is, when every region rounds up: its pages are those from the first
page of the memory to the last, and the memory's ends include them. -/
structure Encloses (memory : MemblockType) (start limit : UInt64) (range : PfnRange) : Prop where
  first : memory.HasPage range.start.toNat
  last : memory.HasPage (range.stop.toNat - 1)
  filled : range.start.toNat < range.stop.toNat
  low : start.toNat / 4096 ≤ range.start.toNat
  high : range.stop.toNat ≤ limit.toNat / 4096
  all : ∀ region ∈ memory.regions, region.pageSpan.lo < region.pageSpan.hi →
    range.start.toNat ≤ region.pageSpan.lo ∧ region.pageSpan.hi ≤ range.stop.toNat

theorem mem_pfnRanges :
    range ∈ memory.pfnRanges ↔
    ∃ region ∈ memory.regions, region.pfnRange = range ∧ range.span.lo < range.span.hi := by
  simp only [MemblockType.pfnRanges, MemblockType.pfnRangesFrom, mem_filter,
    mem_map, decide_eq_true_eq]
  constructor
  · rintro ⟨⟨region, member, same⟩, filled⟩
    exact ⟨region, member, same, filled⟩
  · rintro ⟨region, member, same, filled⟩
    exact ⟨⟨region, member, same⟩, filled⟩

theorem hasPage_of_mem_pageSpan (member : region ∈ memory.regions) {pfn : Nat}
    (low : region.pageSpan.lo ≤ pfn) (high : pfn < region.pageSpan.hi) : memory.HasPage pfn :=
  (memory.covers_pageSpans pfn).mp ⟨_, mem_map_of_mem member, low, high⟩

include arranged in
theorem encloses_of_low (low : memory.StartsLow) (lastMember : last ∈ memory.regions)
    (ends : memory.Between first last) (hull : Hull range memory.pfnRanges) :
    range = ⟨0, 0⟩ ∧ (∀ region ∈ memory.regions, region.pageSpan.hi ≤ region.pageSpan.lo) ∨
      Encloses memory first.base (last.base + last.size) range := by
  have spans : ∀ range ∈ memory.pfnRanges, ∃ region ∈ memory.regions,
      range.span = region.pageSpan ∧ region.pageSpan.lo < region.pageSpan.hi := by
    intro range member
    obtain ⟨region, inside, rfl, filled⟩ := mem_pfnRanges.mp member
    have same := pfnRange_span_of_low arranged low inside
    exact ⟨region, inside, same, same ▸ filled⟩
  rcases hull.ends with ⟨none, zero⟩ | ⟨⟨_, startMember, start⟩, _, stopMember, stop⟩
  · refine .inl ⟨zero, fun region member => ?_⟩
    by_contra filled
    have same := pfnRange_span_of_low arranged low member
    have found : region.pfnRange ∈ memory.pfnRanges :=
      mem_pfnRanges.mpr ⟨region, member, rfl, same ▸ not_le.mp filled⟩
    rw [none] at found
    cases found
  · right
    obtain ⟨startRegion, startInside, startSame, startFilled⟩ := spans _ startMember
    obtain ⟨stopRegion, stopInside, stopSame, _⟩ := spans _ stopMember
    have startPfn : range.start.toNat = startRegion.pageSpan.lo := by
      rw [start, ← startSame]
      rfl
    have stopPfn : range.stop.toNat = stopRegion.pageSpan.hi := by
      rw [stop, ← stopSame]
      rfl
    have all : ∀ region ∈ memory.regions, region.pageSpan.lo < region.pageSpan.hi →
        range.start.toNat ≤ region.pageSpan.lo ∧ region.pageSpan.hi ≤ range.stop.toNat := by
      intro region member filled
      have same := pfnRange_span_of_low arranged low member
      have inside := hull.inside _ (mem_pfnRanges.mpr ⟨region, member, rfl, same ▸ filled⟩)
      rw [← same]
      exact inside
    have startStop := (all _ startInside startFilled).2
    refine ⟨?_, ?_, ?_, ?_, ?_, all⟩
    · exact hasPage_of_mem_pageSpan startInside startPfn.ge (startPfn ▸ startFilled)
    · exact hasPage_of_mem_pageSpan stopInside (by omega) (by omega)
    · omega
    · rw [startPfn]
      have bottom := (ends _ startInside).1
      show first.span.lo / 4096 ≤ (startRegion.span.lo + 4095) / 4096
      omega
    · rw [stopPfn, toNat_end (arranged.fit last lastMember)]
      exact Nat.div_le_div_right (ends _ stopInside).2

/-- A memory without a page, and zones without one. -/
theorem exact_of_empty {node : NodeData} {windows : Nat → Span Nat}
    (none : ∀ region ∈ memory.regions, region.pageSpan.hi ≤ region.pageSpan.lo)
    (empty : ∀ zoneType < maxNrZones, (windows zoneType).hi ≤ (windows zoneType).lo)
    (sized : node.Sized memory windows) : node.Exact memory := by
  have measures := sized.measures
  have spans : ∀ zoneType < maxNrZones, (node.zones zoneType).span = ∅ := fun zoneType inside => by
    rw [(measures zoneType inside).span, Finset.Ico_eq_empty_of_le (empty zoneType inside)]
  have absent : ∀ zoneType < maxNrZones, (node.zones zoneType).presentPages = 0 :=
    fun zoneType inside => by
      rw [(measures zoneType inside).present, sum_within_empty _ (empty zoneType inside)]
      rfl
  refine ⟨fun first second less inside low lowMember => ?_, fun pfn => ⟨?_, ?_⟩,
    fun zoneType inside => ?_, ?_⟩
  · rw [spans first (less.trans inside)] at lowMember
    exact absurd lowMember (Finset.notMem_empty low)
  · rintro ⟨zoneType, inside, member⟩
    rw [spans zoneType inside] at member
    exact absurd member (Finset.notMem_empty pfn)
  · rintro ⟨first, _, hasPage, _⟩
    obtain ⟨_, member, low, high⟩ := (memory.covers_pageSpans first).mpr hasPage
    obtain ⟨region, inside, rfl⟩ := mem_map.mp member
    exact absurd (low.trans_lt high) (not_lt.mpr (none region inside))
  · rw [spans zoneType inside, absent zoneType inside,
      (measures zoneType inside).spanned, Span.size, Nat.sub_eq_zero_of_le (empty zoneType inside)]
    rfl
  · rw [sized.total, absent 0 (by decide), absent 1 (by decide), absent 2 (by decide)]
    refine (sum_eq_zero fun count member => ?_).symm
    obtain ⟨region, inside, rfl⟩ := mem_map.mp member
    exact Nat.sub_eq_zero_of_le (none region inside)

/-- In a node that encloses the memory the present pages are the pages of all regions. -/
theorem sum_within_zones {start limit : UInt64} (encloses : Encloses memory start limit range)
    (between : Nat) :
    ((memory.regions.map MemblockRegion.pageSpan).map
        (Span.within (min range.start.toNat between) (min range.stop.toNat between))).sum +
      ((memory.regions.map MemblockRegion.pageSpan).map
        (Span.within (max range.start.toNat between) (max range.stop.toNat between))).sum =
      (memory.regions.map fun region =>
        region.span.hi / 4096 - (region.span.lo + 4095) / 4096).sum := by
  rw [← sum_map_add, map_map]
  refine congrArg sum (map_congr_left fun region member => ?_)
  show Span.within _ _ region.pageSpan + Span.within _ _ region.pageSpan = region.pageSpan.size
  by_cases filled : region.pageSpan.lo < region.pageSpan.hi
  · obtain ⟨above, below⟩ := encloses.all region member filled
    exact within_add_within above filled.le below between
  · rw [Span.within_of_empty (not_lt.mp filled), Span.within_of_empty (not_lt.mp filled), Span.size,
      Nat.sub_eq_zero_of_le (not_lt.mp filled)]

section Enclosed

variable {start limit : UInt64} {range : PfnRange} (encloses : Encloses memory start limit range)
  {node : NodeData} (sized : node.Sized memory (zoneWindow start limit range))

include encloses sized

theorem measures_of_encloses :
    Measures memory.pfnRanges ⟨min range.start.toNat (zoneLimit start limit),
      min range.stop.toNat (zoneLimit start limit)⟩ (node.zones 0) ∧
    Measures memory.pfnRanges ⟨max range.start.toNat (zoneLimit start limit),
      max range.stop.toNat (zoneLimit start limit)⟩ (node.zones 1) ∧
    Measures memory.pfnRanges ⟨0, 0⟩ (node.zones 2) := by
  obtain ⟨_, _, _, _, _, _⟩ := encloses
  have dma32 := sized.measures 0 (by decide)
  have normal := sized.measures 1 (by decide)
  rw [zoneWindow_dma32] at dma32
  rw [zoneWindow_normal] at normal
  unfold clampNat at dma32 normal
  refine ⟨?_, ?_, zoneWindow_movable start limit range ▸ sized.measures 2 (by decide)⟩
  · convert dma32 using 2 <;> omega
  · convert normal using 2 <;> omega

theorem mem_span_of_encloses (pfn : Nat) :
    (pfn ∈ (node.zones 0).span ↔ range.start.toNat ≤ pfn ∧ pfn < range.stop.toNat ∧
      pfn < zoneLimit start limit) ∧
    (pfn ∈ (node.zones 1).span ↔ range.start.toNat ≤ pfn ∧ pfn < range.stop.toNat ∧
      zoneLimit start limit ≤ pfn) ∧ pfn ∉ (node.zones 2).span := by
  obtain ⟨dma32, normal, movable⟩ := measures_of_encloses encloses sized
  rw [dma32.span, normal.span, movable.span, Finset.mem_Ico, Finset.mem_Ico]
  refine ⟨?_, ?_, Finset.notMem_empty pfn⟩
  · rw [lt_min_iff, min_le_iff]
    omega
  · rw [max_le_iff, lt_max_iff]
    omega

theorem ascending_of_encloses (first second : Nat) (less : first < second)
    (inside : second < maxNrZones) (low : Nat) (lowMember : low ∈ (node.zones first).span)
    (high : Nat) (highMember : high ∈ (node.zones second).span) : low < high := by
  have lowZone := mem_span_of_encloses encloses sized low
  have highZone := mem_span_of_encloses encloses sized high
  match first, second with
  | 0, 1 =>
    have before := lowZone.1.mp lowMember
    have after := highZone.2.1.mp highMember
    omega
  | _, 2 => exact absurd highMember highZone.2.2
  | _ + 1, 1 => omega
  | _, _ + 3 => exact absurd inside (by unfold maxNrZones; omega)

theorem covers_of_encloses (pfn : Nat) :
    (∃ zoneType < maxNrZones, pfn ∈ (node.zones zoneType).span) ↔
      ∃ first last, memory.HasPage first ∧ memory.HasPage last ∧ first ≤ pfn ∧ pfn ≤ last := by
  obtain ⟨dma32, normal, movable⟩ := mem_span_of_encloses encloses sized pfn
  constructor
  · rintro ⟨zoneType, inside, member⟩
    refine ⟨range.start.toNat, range.stop.toNat - 1, encloses.first, encloses.last, ?_⟩
    revert member
    refine forall_zoneType (motive := fun zoneType => pfn ∈ (node.zones zoneType).span → _)
      ?_ ?_ (movable.elim) zoneType inside
    · rw [dma32]
      omega
    · rw [normal]
      omega
  · rintro ⟨first, last, hasFirst, hasLast, above, below⟩
    have within : ∀ pfn, memory.HasPage pfn → range.start.toNat ≤ pfn ∧ pfn < range.stop.toNat := by
      intro pfn hasPage
      obtain ⟨_, member, low, high⟩ := (memory.covers_pageSpans pfn).mpr hasPage
      obtain ⟨region, inside, rfl⟩ := mem_map.mp member
      obtain ⟨lowest, highest⟩ := encloses.all region inside (low.trans_lt high)
      exact ⟨lowest.trans low, high.trans_le highest⟩
    have start := (within first hasFirst).1.trans above
    have stop := below.trans_lt (within last hasLast).2
    rcases lt_or_ge pfn (zoneLimit _ _) with before | after
    · exact ⟨0, by decide, dma32.mpr ⟨start, stop, before⟩⟩
    · exact ⟨1, by decide, normal.mpr ⟨start, stop, after⟩⟩

omit sized in
theorem window_lt_of_encloses :
    min range.stop.toNat (zoneLimit start limit) < 2 ^ 53 ∧
      max range.stop.toNat (zoneLimit start limit) < 2 ^ 53 := by
  have high := encloses.high
  have limitBound := toNat_lt limit
  have startBound := toNat_lt start
  unfold zoneLimit
  omega

include arranged

theorem nodePresent_of_encloses (low : memory.StartsLow) :
    node.nodePresentPages.toNat = (memory.regions.map fun region =>
      region.span.hi / 4096 - (region.span.lo + 4095) / 4096).sum := by
  obtain ⟨dma32, normal, movable⟩ := measures_of_encloses encloses sized
  obtain ⟨dma32Bound, normalBound⟩ := window_lt_of_encloses encloses
  have sum := sum_within_zones encloses (zoneLimit start limit)
  have bounded : ∀ lo hi : Nat, hi < 2 ^ 53 →
      ((memory.regions.map MemblockRegion.pageSpan).map (Span.within lo hi)).sum < 2 ^ 53 :=
    fun lo hi bound => by
      rw [sum_within lo hi (ascending_pageSpans arranged)]
      refine (Finset.card_filter_le _ _).trans_lt ?_
      rw [Nat.card_Ico]
      exact (sub_le hi lo).trans_lt bound
  have dma32Sum := bounded (min range.start.toNat (zoneLimit start limit)) _ dma32Bound
  have normalSum := bounded (max range.start.toNat (zoneLimit start limit)) _ normalBound
  rw [sized.total, dma32.present, normal.present, movable.present,
    sum_pfnRanges_of_low arranged low,
    sum_pfnRanges_of_low arranged low, sum_within_empty _ le_rfl, ← ofNat_add,
    ← ofNat_add, add_zero, toNat_ofNat', mod_eq_of_lt, sum]
  dsimp only
  omega

theorem exact_of_encloses (low : memory.StartsLow) : node.Exact memory := by
  obtain ⟨dma32, normal, movable⟩ := measures_of_encloses encloses sized
  obtain ⟨dma32Bound, normalBound⟩ := window_lt_of_encloses encloses
  refine ⟨ascending_of_encloses encloses sized, covers_of_encloses encloses sized,
    forall_zoneType ?_ ?_ ?_, nodePresent_of_encloses arranged encloses sized low⟩
  · exact dma32.present_add_holes arranged low (dma32Bound.trans (by decide))
  · exact normal.present_add_holes arranged low (normalBound.trans (by decide))
  · exact movable.present_add_holes arranged low (by decide)

end Enclosed

/-! ### A region in the last page -/

section Wraps

variable {region : MemblockRegion} (member : region ∈ memory.regions)
  (high : 2 ^ 64 - 4096 < region.base.toNat)

include arranged

theorem pageSpan_hi_le {other : MemblockRegion} (inside : other ∈ memory.regions) :
    other.pageSpan.hi ≤ 2 ^ 52 - 1 := by
  have fit := arranged.fit other inside
  rw [toNat_physAddrMax] at fit
  show other.span.hi / 4096 ≤ _
  omega

include member high in
/-- A region that starts in the last page counts as all pages below it. -/
theorem span_of_high : region.pfnRange.span = ⟨0, 2 ^ 52 - 1⟩ := by
  rw [span_pfnRange (arranged.fit region member), if_neg (not_le.mpr high)]
  have upper := pageSpan_hi_le arranged member
  have lower : region.base.toNat / 4096 ≤ region.pageSpan.hi :=
    Nat.div_le_div_right (le_add_right _ _)
  congr 1
  omega

theorem within_pfnRange {lo : Nat} {other : MemblockRegion} (inside : other ∈ memory.regions) :
    other.pfnRange.span.within lo (2 ^ 52 - 1) = other.pageSpan.within lo (2 ^ 52 - 1) +
      if other.base.toNat ≤ 2 ^ 64 - 4096 then 0 else 2 ^ 52 - 1 - lo := by
  by_cases low : other.base.toNat ≤ 2 ^ 64 - 4096
  · rw [span_pfnRange (arranged.fit other inside), if_pos low, if_pos low]
    rfl
  · have upper := pageSpan_hi_le arranged inside
    have empty : other.pageSpan.hi ≤ other.pageSpan.lo := by
      show _ ≤ (other.base.toNat + 4095) / 4096
      omega
    rw [span_of_high arranged inside (not_le.mp low), Span.within_of_empty empty, if_neg low]
    unfold Span.within clampNat
    dsimp only
    omega

include member high in
/-- It makes a zone count more pages than the memory has in it. -/
theorem lt_sum_pfnRanges {lo : Nat} (filled : lo < 2 ^ 52 - 1) :
    ((memory.regions.map MemblockRegion.pageSpan).map (Span.within lo (2 ^ 52 - 1))).sum <
      ((memory.pfnRanges.map PfnRange.span).map (Span.within lo (2 ^ 52 - 1))).sum := by
  rw [sum_pfnRanges, map_map]
  refine sum_lt_sum _ _ (fun other inside => ?_) ⟨region, member, ?_⟩
  · rw [within_pfnRange arranged inside]
    exact le_add_right _ _
  · rw [within_pfnRange arranged member, if_neg (not_le.mpr high)]
    exact Nat.lt_add_of_pos_right (Nat.sub_pos_of_lt filled)

theorem sum_pfnRanges_lt (lo : Nat) :
    ((memory.pfnRanges.map PfnRange.span).map (Span.within lo (2 ^ 52 - 1))).sum < 2 ^ 64 := by
  have each : ∀ count ∈ memory.regions.map fun region =>
      region.pfnRange.span.within lo (2 ^ 52 - 1), count ≤ 2 ^ 52 := by
    intro count inside
    obtain ⟨_, _, rfl⟩ := mem_map.mp inside
    unfold Span.within clampNat
    omega
  have sum := sum_le_card_nsmul _ _ each
  have count : memory.regions.length ≤ 128 := arranged.room.trans_eq arranged.capacity
  rw [length_map, nsmul_eq_mul, cast_id] at sum
  rw [sum_pfnRanges]
  omega

include member high in
theorem not_exact_of_high (firstLow : first.base.toNat < 2 ^ 64 - 4096)
    (lastMember : last ∈ memory.regions) (ends : memory.Between first last)
    (hull : Hull range memory.pfnRanges) {node : NodeData}
    (measures : Measures memory.pfnRanges
      (zoneWindow first.base (last.base + last.size) range 1) (node.zones 1)) :
    ¬ node.Exact memory := by
  have wide := span_of_high arranged member high
  have counted : region.pfnRange ∈ memory.pfnRanges :=
    mem_pfnRanges.mpr ⟨region, member, rfl, by rw [wide]; decide⟩
  have inside := hull.inside _ counted
  rw [show region.pfnRange.start.toNat = 0 from congrArg Span.lo wide,
    show region.pfnRange.stop.toNat = 2 ^ 52 - 1 from congrArg Span.hi wide] at inside
  have lastHigh := (ends region member).2
  have lastFit := arranged.fit last lastMember
  have regionHigh : region.base.toNat ≤ region.span.hi := le_add_right _ _
  rw [toNat_physAddrMax] at lastFit
  have limit : (last.base + last.size).toNat / 4096 = 2 ^ 52 - 1 := by
    rw [toNat_end (arranged.fit last lastMember)]
    omega
  obtain ⟨between, named⟩ : ∃ between, zoneLimit first.base (last.base + last.size) = between :=
    ⟨_, rfl⟩
  have below : between < 2 ^ 52 - 1 := by
    rw [← named, zoneLimit]
    omega
  have window : zoneWindow first.base (last.base + last.size) range 1 = ⟨between, 2 ^ 52 - 1⟩ := by
    rw [zoneWindow_normal]
    unfold clampNat
    congr 1 <;> omega
  rw [window] at measures
  intro exactly
  -- the count of the zone's pages includes the whole zone once more
  have more := lt_sum_pfnRanges arranged member high below
  have present := exactly.present 1 (by decide)
  have covered : ((Finset.Ico between (2 ^ 52 - 1)).filter memory.HasPage).card = _ :=
    card_hasPage arranged between (2 ^ 52 - 1)
  have parts := Finset.card_filter_add_card_filter_not (s := Finset.Ico between (2 ^ 52 - 1))
    memory.HasPage
  rw [measures.present, measures.span, measures.spanned, toNat_ofNat',
    mod_eq_of_lt (sum_pfnRanges_lt arranged between)] at present
  rw [card_Ico] at parts
  have size : (⟨between, 2 ^ 52 - 1⟩ : Span Nat).size = 2 ^ 52 - 1 - between := rfl
  dsimp only at present
  omega

end Wraps

include arranged in
/-- Where all regions start in the last page, no zone and no region has a page. -/
theorem exact_of_all_high (firstMember : first ∈ memory.regions)
    (firstHigh : 2 ^ 64 - 4096 ≤ first.base.toNat) (lastMember : last ∈ memory.regions)
    (ends : memory.Between first last) {node : NodeData}
    (sized : node.Sized memory (zoneWindow first.base (last.base + last.size) range)) :
    node.Exact memory := by
  have lastFit := arranged.fit last lastMember
  have lastHigh := (ends first firstMember).2
  have firstEnd : first.base.toNat ≤ first.span.hi := le_add_right _ _
  rw [toNat_physAddrMax] at lastFit
  have start : first.base.toNat / 4096 = 2 ^ 52 - 1 := by omega
  have limit : (last.base + last.size).toNat / 4096 = 2 ^ 52 - 1 := by
    rw [toNat_end (arranged.fit last lastMember)]
    omega
  have between : zoneLimit first.base (last.base + last.size) = 2 ^ 52 - 1 := by
    rw [zoneLimit, start, limit]
    rfl
  refine exact_of_empty (fun region member => ?_) (forall_zoneType ?_ ?_ ?_) sized
  · have upper := pageSpan_hi_le arranged member
    have above := (ends region member).1.trans' firstHigh
    show _ ≤ (region.span.lo + 4095) / 4096
    omega
  · rw [zoneWindow_dma32]
    unfold clampNat
    dsimp only
    omega
  · rw [zoneWindow_normal]
    unfold clampNat
    dsimp only
    omega
  · rw [zoneWindow_movable]

end Memory

/-- No region starts in the last page after its first byte, or all regions start in it. -/
def MemblockType.Roundable (memory : MemblockType) : Prop :=
  memory.StartsLow ∨ ∀ region ∈ memory.regions, 2 ^ 64 - 4096 ≤ region.base.toNat

/-- The sizes that `free_area_init` computes are exact if and only if every region can be rounded
up to pages or none has to be. -/
theorem zoneSizesInit_exact_iff {memory : MemblockType} (arranged : memory.Arranged) :
    ∃ node, zoneSizesInit memory = .ok node ∧ (node.Exact memory ↔ memory.Roundable) := by
  obtain ⟨first, firstMember, last, lastMember, foundFirst, foundLast, ends⟩ := arranged.ends
  have starts : memblockStartOfDRAM memory = .ok first.base := by
    rw [memblockStartOfDRAM, foundFirst]
    rfl
  have stops : memblockEndOfDRAM memory = .ok (last.base + last.size) := by
    rw [memblockEndOfDRAM, foundLast]
    rfl
  obtain ⟨node, _, sizes, hull, sized⟩ := zoneSizesInit_spec arranged starts stops
  refine ⟨node, sizes, fun exactly => ?_, ?_⟩
  · by_contra unroundable
    obtain ⟨notLow, notHigh⟩ := not_or.mp unroundable
    simp only [MemblockType.StartsLow, not_forall, not_le] at notLow notHigh
    obtain ⟨region, member, high⟩ := notLow
    obtain ⟨other, inside, low⟩ := notHigh
    exact not_exact_of_high arranged member high
      ((ends other inside).1.trans_lt low) lastMember ends
      hull (sized.measures 1 (by decide)) exactly
  · rintro (low | allHigh)
    · rcases encloses_of_low arranged low lastMember ends hull with ⟨rfl, none⟩ | encloses
      · exact exact_of_empty none (fun _ _ => le_rfl) sized
      · exact exact_of_encloses arranged encloses sized low
    · exact exact_of_all_high arranged firstMember (allHigh first firstMember) lastMember ends sized

/-- Memory on both sides of 4 GiB, with a hole at 4 GiB. -/
theorem zoneSizesInit_exact_iff_hole :
    ∃ memblock node, Run.run memblockCall initialMemblock
        [.add 0x80000800 0x70000000, .add 0x100000800 0x2000] = .ok memblock ∧
      zoneSizesInit memblock.memory = .ok node ∧ node.Exact memblock.memory := by
  have ran : Run.run memblockCall initialMemblock
      [.add 0x80000800 0x70000000, .add 0x100000800 0x2000] = .ok _ := rfl
  obtain ⟨node, sizes, exactly⟩ := zoneSizesInit_exact_iff (normalised_of_run ran).arranged.memory
  refine ⟨_, node, rfl, sizes, exactly.mpr (.inl ?_)⟩
  rw [MemblockType.StartsLow]
  decide

/-- Two pages at the bottom of the memory and a few bytes in its last page: the first zone gets
more present pages than it spans, and the node has more than two present pages. -/
theorem zoneSizesInit_counts_last_page :
    ∃ memblock node, Run.run memblockCall initialMemblock
        [.add 0x1000 0x2000, .add 0xfffffffffffff001 0x10] = .ok memblock ∧
      memblock.memory.regions = [⟨0x1000, 0x2000⟩, ⟨0xfffffffffffff001, 0x10⟩] ∧
      zoneSizesInit memblock.memory = .ok node ∧
      node.zones 0 = ⟨1, 0xfffff, 0x100001⟩ ∧ node.nodePresentPages = 0x10000000000000 :=
  ⟨_, _, rfl, rfl, rfl, by decide, by decide⟩

end Xlinux
