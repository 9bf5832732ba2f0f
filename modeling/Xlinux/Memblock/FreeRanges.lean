/-
This file proves what the two memblock iterators yield: the maximal free ranges,
memory without the reserved regions, in ascending and in descending order. A
call of an iterator is one step of the two-cursor walk `Spans.meet`, or of
`Spans.meetDown` for the descending one, over the memory regions and the blank
areas between the reserved regions; the packed index is the pair of list
suffixes the walk still has before it.
-/

import Xlinux.Memblock.Iterators
import Xlinux.Memblock.AddRange
import Xlinux.Lib.SpanMeet

namespace Xlinux

open Spans Iterate List UInt64 Nat

variable {b : Int} {type : MemblockType} {idx : Nat} {spans : List (Span Nat)}

/-! ### The packed index -/

theorem toNat_packIdx (a : Int) (lowB : 0 ≤ b) (highB : b < 2 ^ 31) :
    (packIdx a b).toNat = (a % 2 ^ 32).toNat + b.toNat * 2 ^ 32 := by
  have low : (ofCInt a &&& (0xffffffff : UInt64)).toNat = (a % 2 ^ 32).toNat := by
    rw [UInt64.toNat_and, show (0xffffffff : UInt64).toNat = 2 ^ 32 - 1 from rfl,
      and_two_pow_sub_one_eq_mod, toNat_ofCInt]
    omega
  have high : (ofCInt b <<< (32 : UInt64)).toNat = b.toNat <<< 32 := by
    rw [UInt64.toNat_shiftLeft, toNat_ofCInt, show (32 : UInt64).toNat % 64 = 32 from rfl]
    omega
  have bound : (a % 2 ^ 32).toNat < 2 ^ 32 := by omega
  rw [packIdx, UInt64.toNat_or, low, high, Nat.or_comm, ← shiftLeft_add_eq_or_of_lt bound,
    shiftLeft_eq, add_comm]

theorem unpackIdxA_packIdx {a : Int} (lowA : -1 ≤ a) (highA : a < 2 ^ 31) (lowB : 0 ≤ b)
    (highB : b < 2 ^ 31) : unpackIdxA (packIdx a b) = a := by
  have masked : (packIdx a b &&& 0xffffffff).toNat % 2 ^ 32 = (a % 2 ^ 32).toNat := by
    rw [UInt64.toNat_and, show (0xffffffff : UInt64).toNat = 2 ^ 32 - 1 from rfl,
      and_two_pow_sub_one_eq_mod, toNat_packIdx a lowB highB]
    omega
  rw [unpackIdxA, toCInt_eq masked]
  split <;> omega

theorem unpackIdxB_packIdx {a : Int} (lowB : 0 ≤ b) (highB : b < 2 ^ 31) :
    unpackIdxB (packIdx a b) = b := by
  have shifted : (packIdx a b >>> 32).toNat % 2 ^ 32 = b.toNat := by
    rw [UInt64.toNat_shiftRight, toNat_packIdx a lowB highB,
      show (32 : UInt64).toNat % 64 = 32 from rfl]
    omega
  rw [unpackIdxB, toCInt_eq shifted]
  split <;> omega

/-- A packed pair of cursors is never taken for the end of the iteration. -/
theorem packIdx_ne_ullongMax (a : Int) (lowB : 0 ≤ b) (highB : b < 2 ^ 31) :
    packIdx a b ≠ ullongMax := by
  intro same
  have value := toNat_packIdx a lowB highB
  rw [same, show ullongMax.toNat = 2 ^ 64 - 1 from rfl] at value
  omega

/-! ### The blank areas -/

/-- The addresses of a range. -/
def MemRange.span (range : MemRange) : Span Nat := ⟨range.start.toNat, range.stop.toNat⟩

/-- The blank areas of an array: before, between and after its regions. -/
def blanks (type : MemblockType) : List (Span Nat) :=
  gaps physAddrMax.toNat 0 (spansOf type.regions)

theorem length_blanks (type : MemblockType) : (blanks type).length = type.cnt + 1 := by
  rw [blanks, length_gaps, spansOf, length_map, MemblockType.cnt]

theorem region_of_getElem? {region : MemblockRegion}
    (found : type.regions[idx]? = some region) : type.region idx = .ok region := by
  have nonnegative : ¬ ((idx : Int) < 0) := by omega
  rw [MemblockType.region, if_neg nonnegative, Int.toNat_natCast, found]

theorem getElem?_spansOf (regions : List MemblockRegion) (idx : Nat) :
    (spansOf regions)[idx]? = regions[idx]?.map MemblockRegion.span :=
  List.getElem?_map ..

theorem blankStop_spec (type : MemblockType) (bound : idx < 2 ^ 64) :
    ∃ stop, blankStop type idx = .ok stop ∧
      stop.toNat = ((spansOf type.regions)[idx]?.map Span.lo).getD physAddrMax.toNat := by
  rw [blankStop, toNat_ofCInt_natCast bound, getElem?_spansOf]
  split_ifs with inside
  · have found : type.regions[idx]? = some type.regions[idx] := getElem?_eq_getElem inside
    rw [region_of_getElem? found, found]
    exact ⟨_, rfl, rfl⟩
  · rw [getElem?_eq_none (not_lt.mp inside)]
    exact ⟨_, rfl, rfl⟩

/-- What the source reads for blank area `idx_b` is entry `idx_b` of the blank areas. -/
theorem blankArea_spec (fit : RegionsFit type.regions)
    (bound : idx < 2 ^ 64) (used : idx ≤ type.cnt) :
    ∃ r, blankArea type idx = .ok r ∧ (blanks type)[idx]? = some r.span := by
  obtain ⟨stop, reads, value⟩ := blankStop_spec type bound
  rw [blankArea, blankStart, reads, blanks]
  cases idx with
  | zero =>
    refine ⟨⟨0, stop⟩, rfl, ?_⟩
    rw [head?_gaps, ← value]
    rfl
  | succ idx =>
    have found : type.regions[idx]? = some type.regions[idx] := getElem?_eq_getElem used
    have before : ((idx + 1 : Nat) : Int) - 1 = (idx : Nat) := by omega
    rw [before, region_of_getElem? found]
    refine ⟨⟨type.regions[idx].base + type.regions[idx].size, stop⟩, rfl, ?_⟩
    rw [getElem?_gaps_succ, ← value, getElem?_spansOf, found, MemRange.span,
      toNat_end (fit _ (getElem_mem used))]
    rfl

theorem drop_of_getElem? {span : Span Nat}
    (found : spans[idx]? = some span) : spans.drop idx = span :: spans.drop (idx + 1) := by
  obtain ⟨inside, rfl⟩ := List.getElem?_eq_some_iff.mp found
  exact drop_eq_getElem_cons inside

theorem MemRange.toNat_start (range : MemRange) : range.start.toNat = range.span.lo :=
  rfl

theorem MemRange.toNat_stop (range : MemRange) : range.stop.toNat = range.span.hi :=
  rfl

/-- A region, as the loops over the regions see it. -/
theorem region_span {region : MemblockRegion} (fit : RegionsFit type.regions)
    (found : type.regions[idx]? = some region) :
    (spansOf type.regions)[idx]? =
      some (MemRange.span ⟨region.base, region.base + region.size⟩) := by
  rw [getElem?_spansOf, found, MemRange.span, toNat_end (fit region (mem_of_getElem? found))]
  rfl

/-- The common part of two ranges as the source computes it. -/
theorem span_inter (first second : MemRange) :
    MemRange.span ⟨cmax first.start second.start, cmin first.stop second.stop⟩ =
      first.span.inter second.span := by
  simp only [MemRange.span, Span.inter, toNat_cmax, toNat_cmin]

/-! ### The two walks -/

theorem reverse_take_of_getElem? {span : Span Nat} (found : spans[idx]? = some span) :
    (spans.take (idx + 1)).reverse = span :: (spans.take idx).reverse := by
  rw [take_add_one, found, reverse_append]
  rfl

/-- What is left of the ascending walk when so many regions and blank areas are passed. -/
def ascending (typeA typeB : MemblockType) (idxA idxB : Nat) : List (Span Nat) :=
  meet ((spansOf typeA.regions).drop idxA) ((blanks typeB).drop idxB)

/-- What is left of the descending walk with so many regions and blank areas before it. -/
def descending (typeA typeB : MemblockType) (countA countB : Nat) : List (Span Nat) :=
  meetDown ((spansOf typeA.regions).take countA).reverse ((blanks typeB).take countB).reverse

section Walks

variable {typeA typeB : MemblockType} (fitA : RegionsFit typeA.regions)
  (fitB : RegionsFit typeB.regions) (smallA : typeA.cnt < 2 ^ 31 - 1)
  (smallB : typeB.cnt < 2 ^ 31 - 1)

include fitB smallB

/-- The loop over the blank areas for one memory region `m` is a stretch of the walk: it ends
when `m` is passed, or with the next range of the walk. -/
theorem scanBlanks_spec (m : MemRange) (idxA : Int) (rest : List (Span Nat)) (turns idxB : Nat)
    (bound : idxB ≤ typeB.cnt + 1) (enough : typeB.cnt + 1 < idxB + turns) :
    ∃ after ≤ typeB.cnt + 1, (scanBlanks typeB m idxA turns idxB = .ok (.passed after) ∧
        meet (m.span :: rest) ((blanks typeB).drop idxB) = meet rest ((blanks typeB).drop after)) ∨
      ∃ range, (scanBlanks typeB m idxA turns idxB = .ok (.found range (idxA + 1) after) ∧
          meet (m.span :: rest) ((blanks typeB).drop idxB) =
            range.span :: meet rest ((blanks typeB).drop after)) ∨
        scanBlanks typeB m idxA turns idxB = .ok (.found range idxA after) ∧
          meet (m.span :: rest) ((blanks typeB).drop idxB) =
            range.span :: meet (m.span :: rest) ((blanks typeB).drop after) := by
  induction turns generalizing idxB with
  | zero => omega
  | succ turns ih =>
    rw [scanBlanks, toNat_ofCInt_natCast (by omega)]
    by_cases inside : idxB < typeB.cnt + 1
    · have used : idxB ≤ typeB.cnt := le_of_lt_succ inside
      obtain ⟨_, reads, found⟩ := blankArea_spec fitB (show idxB < 2 ^ 64 by omega) used
      have here := drop_of_getElem? found
      rw [if_pos inside, reads, here, meet, ← span_inter]
      simp only [le_iff_toNat_le, lt_iff_toNat_lt, MemRange.toNat_start, MemRange.toNat_stop]
      split_ifs
      · exact ⟨idxB, bound, .inl ⟨rfl, by rw [here]⟩⟩
      · exact ⟨idxB, bound, .inr ⟨_, .inl ⟨rfl, by rw [here]⟩⟩⟩
      · exact ⟨idxB + 1, inside, .inr ⟨_, .inr ⟨rfl, rfl⟩⟩⟩
      · exact ih (idxB + 1) inside (by omega)
    · have last : idxB = typeB.cnt + 1 := by omega
      refine ⟨idxB, bound, .inl ⟨if_neg inside, ?_⟩⟩
      rw [drop_of_length_le (by rw [length_blanks, last]), meet_nil_right, meet_nil_right]

/-- The descending loop over the blank areas, with `countB` areas still before it, that is at
the index `countB - 1`. The area at index `0` starts at `0`, so a range that is found leaves
the index at `0` or above. -/
theorem scanBlanksRev_spec (m : MemRange) (idxA : Int) (rest : List (Span Nat))
    (turns countB : Nat) (bound : countB ≤ typeB.cnt + 1) (enough : countB < turns) :
    (∃ after ≤ typeB.cnt + 1,
      scanBlanksRev typeB m idxA turns (countB - 1) = .ok (.passed ((after : Int) - 1)) ∧
      meetDown (m.span :: rest) ((blanks typeB).take countB).reverse =
        meetDown rest ((blanks typeB).take after).reverse) ∨
    ∃ range, ∃ idxB ≤ typeB.cnt,
      (scanBlanksRev typeB m idxA turns (countB - 1) = .ok (.found range (idxA - 1) idxB) ∧
        meetDown (m.span :: rest) ((blanks typeB).take countB).reverse =
          range.span :: meetDown rest ((blanks typeB).take (idxB + 1)).reverse) ∨
      scanBlanksRev typeB m idxA turns (countB - 1) = .ok (.found range idxA idxB) ∧
        meetDown (m.span :: rest) ((blanks typeB).take countB).reverse =
          range.span :: meetDown (m.span :: rest) ((blanks typeB).take (idxB + 1)).reverse := by
  induction turns generalizing countB with
  | zero => omega
  | succ turns ih =>
    rw [scanBlanksRev]
    cases countB with
    | zero =>
      refine .inl ⟨0, zero_le _, if_neg (by omega), ?_⟩
      rw [take_zero, reverse_nil, meetDown_nil_right, meetDown_nil_right]
    | succ idxB =>
      have used : idxB ≤ typeB.cnt := le_of_succ_le_succ bound
      obtain ⟨_, reads, found⟩ := blankArea_spec fitB (show idxB < 2 ^ 64 by omega) used
      have here := reverse_take_of_getElem? found
      have cast : ((idxB + 1 : Nat) : Int) - 1 = (idxB : Nat) := by omega
      rw [cast, if_pos (show (idxB : Int) ≥ 0 by omega), reads, here, meetDown, ← span_inter]
      simp only [le_iff_toNat_le, lt_iff_toNat_lt, MemRange.toNat_start, MemRange.toNat_stop]
      split_ifs with _ _ shorter
      · exact .inl ⟨idxB + 1, bound, by rw [cast], by rw [here]⟩
      · exact .inr ⟨_, idxB, used, .inl ⟨rfl, by rw [here]⟩⟩
      · obtain ⟨below, rfl⟩ : ∃ below, idxB = below + 1 := by
          refine exists_eq_add_one_of_ne_zero fun first => shorter ?_
          rw [first, blanks, head?_gaps] at found
          rw [← Option.some.inj found]
          exact zero_le _
        refine .inr ⟨_, below, by omega, .inr ⟨?_, rfl⟩⟩
        rw [show ((below + 1 : Nat) : Int) - 1 = (below : Nat) by omega]
      · exact ih idxB (by omega) (by omega)

include fitA

/-- One call of the iterator is one step of the walk. -/
theorem scanRegions_spec (out : MemRange) (turns idxA idxB : Nat) (small : typeA.cnt < 2 ^ 64)
    (boundA : idxA ≤ typeA.cnt) (boundB : idxB ≤ typeB.cnt + 1)
    (enough : typeA.cnt < idxA + turns) :
    (scanRegions typeA (some typeB) out turns idxA idxB = .ok ⟨ullongMax, out⟩ ∧
      ascending typeA typeB idxA idxB = []) ∨
    ∃ range, ∃ nextA ≤ typeA.cnt, ∃ nextB ≤ typeB.cnt + 1,
      scanRegions typeA (some typeB) out turns idxA idxB = .ok ⟨packIdx nextA nextB, range⟩ ∧
      ascending typeA typeB idxA idxB = range.span :: ascending typeA typeB nextA nextB := by
  unfold ascending
  induction turns generalizing idxA idxB with
  | zero => omega
  | succ turns ih =>
    rw [scanRegions, toNat_ofCInt_natCast (by omega)]
    by_cases inside : idxA < typeA.cnt
    · have found : typeA.regions[idxA]? = some typeA.regions[idxA] :=
        getElem?_eq_getElem inside
      rw [if_pos inside, region_of_getElem? found, drop_of_getElem? (region_span fitA found)]
      obtain ⟨after, boundAfter, ⟨code, walk⟩ | ⟨range, ⟨code, walk⟩ | ⟨code, walk⟩⟩⟩ :=
        scanBlanks_spec fitB smallB
          ⟨typeA.regions[idxA].base, typeA.regions[idxA].base + typeA.regions[idxA].size⟩ idxA
          ((spansOf typeA.regions).drop (idxA + 1)) (typeB.cnt + 2) idxB boundB (by omega)
      · simp only [code, walk]
        exact ih (idxA + 1) after inside boundAfter (by omega)
      · simp only [code, walk]
        exact .inr ⟨range, idxA + 1, inside, after, boundAfter, rfl, rfl⟩
      · simp only [code, walk]
        refine .inr ⟨range, idxA, boundA, after, boundAfter, rfl, ?_⟩
        rw [drop_of_getElem? (region_span fitA found)]
    · refine .inl ⟨if_neg inside, ?_⟩
      rw [drop_of_length_le (by rw [spansOf, length_map]; exact not_lt.mp inside), meet]

/-- One call of the descending iterator is one step of the walk. -/
theorem scanRegionsRev_spec (out : MemRange) (turns countA countB : Nat)
    (boundA : countA ≤ typeA.cnt) (boundB : countB ≤ typeB.cnt + 1) (enough : countA < turns) :
    (scanRegionsRev typeA (some typeB) out turns (countA - 1) (countB - 1) =
        .ok ⟨ullongMax, out⟩ ∧ descending typeA typeB countA countB = []) ∨
    ∃ range, ∃ nextA ≤ typeA.cnt, ∃ nextB ≤ typeB.cnt,
      scanRegionsRev typeA (some typeB) out turns (countA - 1) (countB - 1) =
        .ok ⟨packIdx ((nextA : Int) - 1) nextB, range⟩ ∧
      descending typeA typeB countA countB =
        range.span :: descending typeA typeB nextA (nextB + 1) := by
  unfold descending
  induction turns generalizing countA countB with
  | zero => omega
  | succ turns ih =>
    rw [scanRegionsRev]
    cases countA with
    | zero =>
      refine .inl ⟨if_neg (by omega), ?_⟩
      rw [take_zero, reverse_nil, meetDown]
    | succ idxA =>
      have inside : idxA < typeA.cnt := boundA
      have found : typeA.regions[idxA]? = some typeA.regions[idxA] :=
        getElem?_eq_getElem inside
      have cast : ((idxA + 1 : Nat) : Int) - 1 = (idxA : Nat) := by omega
      rw [cast, if_pos (show (idxA : Int) ≥ 0 by omega), region_of_getElem? found,
        reverse_take_of_getElem? (region_span fitA found)]
      obtain ⟨after, boundAfter, code, walk⟩ |
          ⟨range, idxB, boundIdxB, ⟨code, walk⟩ | ⟨code, walk⟩⟩ :=
        scanBlanksRev_spec fitB smallB
          ⟨typeA.regions[idxA].base, typeA.regions[idxA].base + typeA.regions[idxA].size⟩ idxA
          ((spansOf typeA.regions).take idxA).reverse (((countB : Int) - 1).toNat + 2) countB
          boundB (by omega)
      · simp only [code, walk]
        exact ih idxA after inside.le boundAfter (by omega)
      · simp only [code, walk]
        exact .inr ⟨range, idxA, inside.le, idxB, boundIdxB, rfl, rfl⟩
      · simp only [code, walk]
        refine .inr ⟨range, idxA + 1, boundA, idxB, boundIdxB, by rw [cast], ?_⟩
        rw [reverse_take_of_getElem? (region_span fitA found)]

/-- The cursor of the ascending iteration stands before this rest of the walk. -/
def AscendingAt (typeA typeB : MemblockType) (cursor : RangeCursor) (spans : List (Span Nat)) :
    Prop :=
  ∃ idxA ≤ typeA.cnt, ∃ idxB ≤ typeB.cnt + 1, cursor.idx = packIdx (idxA : Nat) (idxB : Nat) ∧
    ascending typeA typeB idxA idxB = spans

/-- The cursor of the descending iteration stands before this rest of the walk. -/
def DescendingAt (typeA typeB : MemblockType) (cursor : RangeCursor) (spans : List (Span Nat)) :
    Prop :=
  ∃ countA ≤ typeA.cnt, ∃ idxB ≤ typeB.cnt,
    (cursor.idx = packIdx ((countA : Nat) - 1) (idxB : Nat) ∨
      cursor.idx = ullongMax ∧ countA = typeA.cnt ∧ idxB = typeB.cnt) ∧
    descending typeA typeB countA (idxB + 1) = spans

include smallA

theorem nextMemRange_simulates :
    Simulates (memRanges typeA (some typeB)) MemRange.span (AscendingAt typeA typeB) := by
  rintro cursor _ ⟨idxA, boundA, idxB, boundB, packed, rfl⟩
  show ∃ after, nextMemRange typeA (some typeB) cursor = .ok after ∧ _
  rw [nextMemRange, packed, unpackIdxA_packIdx (by omega) (by omega) (by omega) (by omega),
    unpackIdxB_packIdx (by omega) (by omega)]
  rcases scanRegions_spec fitA fitB smallB cursor.range (typeA.cnt + 1) idxA idxB (by omega) boundA
    boundB (by omega) with ⟨code, finished⟩ | ⟨range, nextA, boundNextA, nextB, boundNextB,
      code, step⟩
  · exact ⟨_, code, .inl ⟨rfl, finished⟩⟩
  · refine ⟨_, code, .inr ⟨?_, _, step, nextA, boundNextA, nextB, boundNextB, rfl, rfl⟩⟩
    exact decide_eq_false (packIdx_ne_ullongMax _ (by omega) (by omega))

theorem nextMemRangeRev_simulates :
    Simulates (memRangesRev typeA (some typeB)) MemRange.span (DescendingAt typeA typeB) := by
  rintro cursor _ ⟨countA, boundA, idxB, boundB, position, rfl⟩
  have cast : ((idxB + 1 : Nat) : Int) - 1 = (idxB : Nat) := by omega
  have unpacked : nextMemRangeRev typeA (some typeB) cursor =
      scanRegionsRev typeA (some typeB) cursor.range (((countA : Int) - 1).toNat + 2)
        (countA - 1) ((idxB + 1 : Nat) - 1) := by
    rw [cast]
    rcases position with packed | ⟨top, rfl, rfl⟩
    · have running := packIdx_ne_ullongMax ((countA : Int) - 1) (b := idxB) (by omega) (by omega)
      simp only [nextMemRangeRev, packed, if_neg running]
      rw [unpackIdxA_packIdx (by omega) (by omega) (by omega) (by omega),
        unpackIdxB_packIdx (by omega) (by omega)]
    · simp only [nextMemRangeRev, top, if_true]
      rw [toCInt_ofNat_sub_one (by omega), toCInt_ofNat (by omega)]
  show ∃ after, nextMemRangeRev typeA (some typeB) cursor = .ok after ∧ _
  rw [unpacked]
  rcases scanRegionsRev_spec fitA fitB smallB cursor.range (((countA : Int) - 1).toNat + 2)
    countA (idxB + 1) boundA (by omega) (by omega) with
    ⟨code, finished⟩ | ⟨range, nextA, boundNextA, nextB, boundNextB, code, step⟩
  · exact ⟨_, code, .inl ⟨rfl, finished⟩⟩
  · refine ⟨_, code, .inr ⟨?_, _, step, nextA, boundNextA, nextB, boundNextB, .inl rfl, rfl⟩⟩
    exact decide_eq_false (packIdx_ne_ullongMax _ (by omega) (by omega))

/-- `for_each_mem_range` yields the whole walk. -/
theorem memRanges_yields (out : MemRange) :
    ∃ ranges : List MemRange,
      ranges.map MemRange.span = meet (spansOf typeA.regions) (blanks typeB) ∧
      Yields (memRanges typeA (some typeB)) ⟨0, out⟩ ranges :=
  (nextMemRange_simulates fitA fitB smallA smallB).yields ⟨0, zero_le _, 0, zero_le _, rfl, rfl⟩

end Walks

/-! ### The free ranges -/

/-- The free addresses: memory that is not reserved. -/
def Memblock.free (memblock : Memblock) : Set Nat :=
  memblock.memory.covered \ memblock.reserved.covered

/-- The free ranges as the walk finds them. -/
def Memblock.freeSpans (memblock : Memblock) : List (Span Nat) :=
  meet (spansOf memblock.memory.regions) (blanks memblock.reserved)

theorem Memblock.length_freeSpans_lt (memblock : Memblock) :
    memblock.freeSpans.length < freeRangeTurns memblock := by
  have bound := length_meet_le (spansOf memblock.memory.regions) (blanks memblock.reserved)
  rw [length_blanks, spansOf, length_map] at bound
  exact lt_succ_of_le bound

/-- The free ranges as the iterators hand them out. -/
def Memblock.freeRanges (memblock : Memblock) : List MemRange :=
  memblock.freeSpans.map fun span => ⟨UInt64.ofNat span.lo, UInt64.ofNat span.hi⟩

theorem eq_map_of_map_span {ranges : List MemRange} (same : ranges.map MemRange.span = spans) :
    ranges = spans.map fun span => ⟨UInt64.ofNat span.lo, UInt64.ofNat span.hi⟩ := by
  rw [← same, map_map]
  refine (map_id'' (fun range => ?_) _).symm
  simp [MemRange.span]

namespace MemblockType.Arranged

variable (arranged : type.Arranged)

include arranged

theorem small : type.cnt < 2 ^ 31 - 1 :=
  (arranged.room.trans_eq arranged.capacity).trans_lt (by decide)

/-- In an arranged array only the dummy is empty, and it lies at address `0`. -/
theorem ordered :
    (∀ span ∈ spansOf type.regions, 0 ≤ span.lo ∧ span.lo ≤ span.hi ∧ span.hi ≤ physAddrMax.toNat) ∧
    (∀ span ∈ spansOf type.regions, span.lo < span.hi ∨ span.hi = 0) ∧
    (spansOf type.regions).Pairwise fun first second =>
      first.hi ≤ second.lo ∧ (first.lo < first.hi → first.hi < second.lo) := by
  refine ⟨?_, ?_, ?_⟩
  · intro span member
    obtain ⟨region, inside, rfl⟩ := mem_map.mp member
    exact ⟨zero_le _, le_add_right _ _, arranged.fit region inside⟩
  · intro span member
    rcases arranged.shape with dummy | ⟨_, normal⟩
    · rw [dummy] at member
      rw [mem_singleton.mp member]
      exact Or.inr rfl
    · exact Or.inl (normal.filled span member)
  · rcases arranged.shape with dummy | ⟨_, normal⟩
    · rw [dummy]
      exact pairwise_singleton _ _
    · exact normal.separated.imp fun before => ⟨before.le, fun _ => before⟩

theorem spread : Spread 0 physAddrMax.toNat (spansOf type.regions) := by
  obtain ⟨inside, filled, ordered⟩ := arranged.ordered
  refine ⟨inside, fun span member => (filled span member).imp_right Or.inl, ?_⟩
  exact ordered.imp fun before => ⟨before.1, fun full _ => before.2 full⟩

theorem spread_blanks : Spread 0 physAddrMax.toNat (blanks type) := by
  obtain ⟨inside, filled, ordered⟩ := arranged.ordered
  exact (spread_gaps le_rfl (zero_le _) inside filled ordered (Or.inl rfl)).1

theorem mem_cover_blanks (address : Nat) :
    address ∈ cover (blanks type) ↔ address < physAddrMax.toNat ∧ address ∉ type.covered := by
  obtain ⟨inside, _, ordered⟩ := arranged.ordered
  rw [blanks, mem_cover_gaps inside (ordered.imp fun before => before.1)]
  exact ⟨fun member => member.2, fun member => ⟨zero_le _, member⟩⟩

end MemblockType.Arranged

namespace Memblock.Arranged

variable {memblock : Memblock} (arranged : memblock.Arranged)

include arranged

theorem normal_freeSpans : Normal memblock.freeSpans :=
  normal_meet arranged.memory.spread arranged.reserved.spread_blanks

theorem cover_freeSpans : cover memblock.freeSpans = memblock.free := by
  rw [freeSpans, cover_meet arranged.memory.spread arranged.reserved.spread_blanks]
  ext address
  rw [Set.mem_inter_iff, arranged.reserved.mem_cover_blanks]
  constructor
  · rintro ⟨inMemory, _, notReserved⟩
    exact ⟨inMemory, notReserved⟩
  · rintro ⟨inMemory, notReserved⟩
    exact ⟨inMemory, covered_lt_physAddrMax arranged.memory.fit inMemory, notReserved⟩

/-- The ascending iterator yields the free ranges. -/
theorem yields (out : MemRange) :
    Yields (memRanges memblock.memory (some memblock.reserved)) ⟨0, out⟩ memblock.freeRanges := by
  obtain ⟨ranges, same, yields⟩ := memRanges_yields arranged.memory.fit arranged.reserved.fit
    arranged.memory.small arranged.reserved.small out
  rw [freeRanges, freeSpans, ← eq_map_of_map_span same]
  exact yields

/-- The descending iterator yields them in the opposite order. -/
theorem yieldsRev (out : MemRange) :
    Yields (memRangesRev memblock.memory (some memblock.reserved)) ⟨ullongMax, out⟩
      memblock.freeRanges.reverse := by
  have start : DescendingAt memblock.memory memblock.reserved ⟨ullongMax, out⟩ _ :=
    ⟨_, le_rfl, _, le_rfl, .inr ⟨rfl, rfl, rfl⟩, rfl⟩
  obtain ⟨_, same, yields⟩ := (nextMemRangeRev_simulates arranged.memory.fit arranged.reserved.fit
    arranged.memory.small arranged.reserved.small).yields start
  have count : (spansOf memblock.memory.regions).length ≤ memblock.memory.cnt := (length_map _).le
  rw [descending, take_of_length_le count,
    take_of_length_le (length_blanks _).le,
    meetDown_reverse arranged.memory.spread arranged.reserved.spread_blanks] at same
  rw [freeRanges, ← map_reverse, freeSpans, ← eq_map_of_map_span same]
  exact yields

theorem map_span_freeRanges : memblock.freeRanges.map MemRange.span = memblock.freeSpans := by
  obtain ⟨_, same, _⟩ := memRanges_yields arranged.memory.fit arranged.reserved.fit
    arranged.memory.small arranged.reserved.small ⟨0, 0⟩
  rw [freeRanges, freeSpans, ← eq_map_of_map_span same]
  exact same

section Loop

variable {State Result : Type} (body : State → MemRange → Kernel (Result ⊕ State))
  (state : State) (out : MemRange)

theorem forEachFreeMemRange_eq :
    forEachFreeMemRange memblock body state out = each body state memblock.freeRanges := by
  refine forEach_of_yields (arranged.yields out) _ _ ?_ _
  rw [freeRanges, length_map]
  exact memblock.length_freeSpans_lt

theorem forEachFreeMemRangeReverse_eq :
    forEachFreeMemRangeReverse memblock body state out =
      each body state memblock.freeRanges.reverse := by
  refine forEach_of_yields (arranged.yieldsRev out) _ _ ?_ _
  rw [length_reverse, freeRanges, length_map]
  exact memblock.length_freeSpans_lt

end Loop

end Memblock.Arranged

/-- The loop body that lists the ranges it is given. -/
def listRanges (listed : List MemRange) (range : MemRange) : Kernel (Empty ⊕ List MemRange) :=
  .ok (.inr (listed ++ [range]))

theorem each_listRanges (listed ranges : List MemRange) :
    each listRanges listed ranges = .ok (.inr (listed ++ ranges)) := by
  induction ranges generalizing listed with
  | nil => rw [each, append_nil]
  | cons range rest ih =>
    rw [each, listRanges]
    simp only
    rw [ih, append_assoc, singleton_append]

/-- Both loops end, and they list the maximal free ranges: the first in ascending order, the
second in descending order. -/
theorem forEachFreeMemRange_maximal {memblock : Memblock} (arranged : memblock.Arranged)
    (out : MemRange) :
    ∃ ranges : List MemRange, forEachFreeMemRange memblock listRanges [] out = .ok (.inr ranges) ∧
      forEachFreeMemRangeReverse memblock listRanges [] out = .ok (.inr ranges.reverse) ∧
      Normal (ranges.map MemRange.span) ∧
      ∀ span, span ∈ ranges.map MemRange.span ↔
        IsMaximal (memblock.memory.covered \ memblock.reserved.covered) span := by
  refine ⟨memblock.freeRanges, ?_, ?_, ?_, fun span => ?_⟩
  · rw [arranged.forEachFreeMemRange_eq, each_listRanges, nil_append]
  · rw [arranged.forEachFreeMemRangeReverse_eq, each_listRanges, nil_append]
  · rw [arranged.map_span_freeRanges]
    exact arranged.normal_freeSpans
  · rw [arranged.map_span_freeRanges, arranged.normal_freeSpans.mem_iff_isMaximal,
      arranged.cover_freeSpans]
    rfl

/-- Two memory regions and a reserved region that overlaps both. -/
theorem forEachFreeMemRange_maximal_overlap :
    ∃ memblock, memblock.Arranged ∧ memblock.memory.regions = [⟨0x1000, 0x2000⟩, ⟨0x4000, 0x1000⟩] ∧
      memblock.reserved.regions = [⟨0x2000, 0x2800⟩] ∧
      ∃ ranges : List MemRange,
        forEachFreeMemRange memblock listRanges [] ⟨0, 0⟩ = .ok (.inr ranges) ∧
        forEachFreeMemRangeReverse memblock listRanges [] ⟨0, 0⟩ = .ok (.inr ranges.reverse) ∧
        Normal (ranges.map MemRange.span) ∧
        ∀ span, span ∈ ranges.map MemRange.span ↔
          IsMaximal (memblock.memory.covered \ memblock.reserved.covered) span := by
  have ran : Run.run memblockCall initialMemblock
      [.add 0x1000 0x2000, .add 0x4000 0x1000, .reserve 0x2000 0x2800] = .ok _ := rfl
  have arranged := (normalised_of_run ran).arranged
  exact ⟨_, arranged, rfl, rfl, forEachFreeMemRange_maximal arranged ⟨0, 0⟩⟩

end Xlinux
