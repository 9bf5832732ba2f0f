/-
This file proves that `memblock_add_range` keeps a region array in normal form
and adds exactly the requested addresses. The index walk is first read as a
recursion over the entries it has not visited yet; on the address spans that
recursion is `Spans.splice`, and the merge pass is `Spans.coalesce`.
-/

import Xlinux.Memblock.Regions
import Xlinux.Lib.Spans

namespace Xlinux

open Spans List UInt64 Nat

variable {done ahead : List MemblockRegion} {type : MemblockType} {limit base size : UInt64}
  {this next : MemblockRegion} {address : Nat} {memblock after : Memblock}

/-! ### Regions as spans of addresses -/

/-- The addresses of a region, `base + size` taken without wrapping. -/
def MemblockRegion.span (region : MemblockRegion) : Span Nat :=
  ⟨region.base.toNat, region.base.toNat + region.size.toNat⟩

/-- The spans of an array. -/
def spansOf (regions : List MemblockRegion) : List (Span Nat) :=
  regions.map MemblockRegion.span

/-- The addresses an array covers. -/
def MemblockType.covered (type : MemblockType) : Set Nat :=
  cover (spansOf type.regions)

/-- Every region ends at or below `PHYS_ADDR_MAX`, so `base + size` does not wrap. -/
def RegionsFit (regions : List MemblockRegion) : Prop :=
  ∀ region ∈ regions, region.span.hi ≤ physAddrMax.toNat

/-- The sum of the sizes of an array. -/
def sizeSum (regions : List MemblockRegion) : Nat :=
  (regions.map fun region => region.size.toNat).sum

/-- The recorded total is the sum of the sizes, up to the wrap of the 64-bit counter. -/
def MemblockType.TotalMod (type : MemblockType) : Prop :=
  type.totalSize.toNat = sizeSum type.regions % 2 ^ 64

/-- The entries of a region array are arranged: strictly ascending, pairwise disjoint,
non-adjacent and non-empty regions that end at or below `PHYS_ADDR_MAX`, or the single empty
dummy entry, in a static array of `INIT_MEMBLOCK_REGIONS`. -/
structure MemblockType.Arranged (type : MemblockType) : Prop where
  shape : type.regions = [⟨0, 0⟩] ∨ type.regions ≠ [] ∧ Normal (spansOf type.regions)
  fit : RegionsFit type.regions
  room : type.cnt ≤ type.max
  capacity : type.max = initMemblockRegions

/-- The normal form of a region array: its entries are arranged and the recorded total is the
sum of their sizes. -/
structure MemblockType.Normalised (type : MemblockType) : Prop extends type.Arranged where
  total : type.totalSize.toNat = sizeSum type.regions

theorem regionsFit_cons (region : MemblockRegion) (rest : List MemblockRegion) :
    RegionsFit (region :: rest) ↔ region.span.hi ≤ physAddrMax.toNat ∧ RegionsFit rest := by
  simp [RegionsFit]

theorem toNat_end {region : MemblockRegion} (fit : region.span.hi ≤ physAddrMax.toNat) :
    (region.base + region.size).toNat = region.span.hi := by
  refine toNat_add_of_lt ?_
  have bound : region.base.toNat + region.size.toNat ≤ 2 ^ 64 - 1 := fit
  omega

/-! ### The walk as a recursion over the entries ahead -/

/-- The walk stops before the entries `ahead`: what is left of the new range goes there. -/
def walkStop (limit : UInt64) (ahead : List MemblockRegion) (base : UInt64) :
    List MemblockRegion × Nat :=
  if base < limit then (⟨base, limit - base⟩ :: ahead, 1) else (ahead, 0)

/-- What is left of the array and how many regions are new when the walk, with `base` still
to place, has the entries `ahead` before it. -/
def walk (limit : UInt64) : List MemblockRegion → UInt64 → List MemblockRegion × Nat
  | [], base => walkStop limit [] base
  | region :: ahead, base =>
    if region.base ≥ limit then walkStop limit (region :: ahead) base
    else if region.base + region.size ≤ base then
      let after := walk limit ahead base
      (region :: after.1, after.2)
    else
      let after := walk limit ahead (cmin (region.base + region.size) limit)
      if region.base > base then
        (⟨base, region.base - base⟩ :: region :: after.1, after.2 + 1)
      else (region :: after.1, after.2)

theorem insertIdx_length {Entry : Type} (done ahead : List Entry) (entry : Entry) :
    (done ++ ahead).insertIdx done.length entry = done ++ entry :: ahead := by
  induction done with
  | nil => rfl
  | cons head tail ih => simp [ih]

theorem getElem?_length {Entry : Type} (done ahead : List Entry) :
    (done ++ ahead)[done.length]? = ahead.head? := by
  rw [getElem?_append_right le_rfl, Nat.sub_self, head?_eq_getElem?]

theorem totalMod_insert (entries : type.regions = done ++ ahead) (total : type.TotalMod)
    (base size : UInt64) : (memblockInsertRegion type done.length base size).TotalMod := by
  have sum : sizeSum (done ++ ⟨base, size⟩ :: ahead) = sizeSum (done ++ ahead) + size.toNat := by
    simp only [sizeSum, map_append, map_cons, List.sum_append, sum_cons]
    omega
  rw [MemblockType.TotalMod] at total
  simp only [MemblockType.TotalMod, memblockInsertRegion, entries, insertIdx_length,
    UInt64.toNat_add, total]
  omega

/-- A pass has counted the pieces of the walk, and placed them if it inserts. -/
structure Walked (insert : Bool) (done : List MemblockRegion) (pieces : List MemblockRegion × Nat)
    (pass after : AddPass) : Prop where
  count : after.nrNew = pass.nrNew + pieces.2
  regions : insert = true → after.type.regions = done ++ pieces.1
  total : insert = true → pass.type.TotalMod → after.type.TotalMod
  max : after.type.max = pass.type.max

theorem addRemaining_walked (insert : Bool) (limit : UInt64) {pass : AddPass}
    (entries : pass.type.regions = done ++ ahead) (index : pass.idx = done.length) :
    Walked insert done (walkStop limit ahead pass.base) pass (addRemaining insert limit pass) := by
  unfold addRemaining walkStop
  split
  · cases insert with
    | false => exact ⟨rfl, nofun, nofun, rfl⟩
    | true =>
      refine ⟨rfl, fun _ => ?_, fun _ total => ?_, rfl⟩
      · simp [memblockInsertRegion, entries, index, insertIdx_length]
      · simp only [index]
        exact totalMod_insert entries total _ _
  · exact ⟨rfl, fun _ => entries, fun _ => id, rfl⟩

theorem addPassLoop_walked (insert : Bool) (limit : UInt64) (ahead : List MemblockRegion)
    (turns : Nat) (enough : ahead.length ≤ turns) (done : List MemblockRegion) (pass : AddPass)
    (entries : pass.type.regions = done ++ ahead) (index : pass.idx = done.length) :
    Walked insert done (walk limit ahead pass.base) pass
      (addRemaining insert limit (addPassLoop insert limit turns pass)) := by
  induction ahead generalizing turns done pass with
  | nil =>
    have ended : addPassLoop insert limit turns pass = pass := by
      cases turns with
      | zero => rfl
      | succ turns => rw [addPassLoop, entries, index, getElem?_length, head?_nil]
    rw [ended]
    exact addRemaining_walked insert limit entries index
  | cons region ahead ih =>
    obtain ⟨turns, rfl⟩ := Nat.exists_eq_add_of_le' (one_le_of_lt enough)
    have current : pass.type.regions[pass.idx]? = some region := by
      rw [entries, index, getElem?_length, head?_cons]
    -- the next entry stays where it is
    have moves (base : UInt64) (count : Nat) := ih turns (le_of_succ_le_succ enough)
      (done ++ [region]) { pass with base := base, nrNew := count, idx := pass.idx + 1 }
      (by simp [entries]) (by simp [index])
    have regions {rest : List MemblockRegion} :
        done ++ [region] ++ rest = done ++ region :: rest := by
      simp
    rw [addPassLoop, current]
    simp only
    unfold walk
    split_ifs with beyond passed gap inserts
    · exact addRemaining_walked insert limit entries index
    · obtain ⟨count, placed, total, max⟩ := moves pass.base pass.nrNew
      exact ⟨count, regions ▸ placed, total, max⟩
    · have after := ih turns (le_of_succ_le_succ enough)
        (done ++ [⟨pass.base, region.base - pass.base⟩, region])
        { type := memblockInsertRegion pass.type pass.idx pass.base (region.base - pass.base)
          idx := pass.idx + 1 + 1
          base := cmin (region.base + region.size) limit
          nrNew := pass.nrNew + 1 }
        (by simp [memblockInsertRegion, entries, index, insertIdx_length]) (by simp [index])
      obtain ⟨count, placed, kept, max⟩ := after
      refine ⟨?_, fun _ => ?_, fun _ total => kept inserts ?_, max⟩
      · simpa [add_assoc, add_comm 1] using count
      · simpa using placed inserts
      · rw [index]
        exact totalMod_insert entries total _ _
    · obtain ⟨count, _, _, max⟩ := moves (cmin (region.base + region.size) limit) (pass.nrNew + 1)
      exact ⟨by simpa [add_assoc, add_comm 1] using count, inserts.elim, inserts.elim, max⟩
    · obtain ⟨count, placed, total, max⟩ :=
        moves (cmin (region.base + region.size) limit) pass.nrNew
      exact ⟨count, regions ▸ placed, total, max⟩

/-! ### The walk on spans -/

theorem spansOf_walkStop (ahead : List MemblockRegion) (base : UInt64) :
    spansOf (walkStop limit ahead base).1 =
      (if base.toNat < limit.toNat then [⟨base.toNat, limit.toNat⟩] else []) ++ spansOf ahead := by
  unfold walkStop
  simp only [lt_iff_toNat_lt]
  split_ifs with less
  · simp only [spansOf, map_cons, MemblockRegion.span, toNat_sub_of_toNat_le less.le,
      singleton_append]
    rw [Nat.add_sub_cancel' less.le]
  · rfl

/-- On the spans of the array the walk is a splice. -/
theorem spansOf_walk (fit : RegionsFit ahead) (base : UInt64) :
    spansOf (walk limit ahead base).1 = splice limit.toNat (spansOf ahead) base.toNat := by
  induction ahead generalizing base with
  | nil =>
    rw [walk, spansOf_walkStop]
    simp [spansOf, splice]
  | cons region ahead ih =>
    obtain ⟨fits, fitAhead⟩ := (regionsFit_cons _ _).mp fit
    have spans : spansOf (region :: ahead) = region.span :: spansOf ahead := rfl
    have base' : region.base.toNat = region.span.lo := rfl
    rw [walk, spans, splice]
    simp only [le_iff_toNat_le, lt_iff_toNat_lt, toNat_end fits, base']
    have after := ih fitAhead (cmin (region.base + region.size) limit)
    rw [toNat_cmin, toNat_end fits] at after
    split_ifs with beyond less passed gap
    · simp [spansOf_walkStop, less, spans]
    · simp [spansOf_walkStop, less, spans]
    · exact congrArg (region.span :: ·) (ih fitAhead base)
    · change _ :: region.span :: spansOf (walk limit ahead _).1 = _
      rw [after]
      simp only [MemblockRegion.span, cons.injEq, and_true, Span.mk.injEq, true_and]
      rw [toNat_sub_of_toNat_le gap.le]
      exact Nat.add_sub_cancel' gap.le
    · exact congrArg (region.span :: ·) after

/-- The walk places as many regions as it counts between the entries. -/
theorem walk_spec (limit : UInt64) (ahead : List MemblockRegion) (base : UInt64) :
    (walk limit ahead base).1.length = ahead.length + (walk limit ahead base).2 ∧
      ahead.Sublist (walk limit ahead base).1 := by
  have stop (rest : List MemblockRegion) (base : UInt64) :
      (walkStop limit rest base).1.length = rest.length + (walkStop limit rest base).2 ∧
        rest.Sublist (walkStop limit rest base).1 := by
    unfold walkStop
    split <;> simp
  fun_induction walk limit ahead base with
  | case1 base => exact stop [] base
  | case2 => exact stop ..
  | case3 | case4 | case5 => grind

/-! ### The merge pass on spans -/

/-- The size of a glued region does not wrap. -/
theorem toNat_glue (fit : next.span.hi ≤ physAddrMax.toNat) (touch : this.span.hi = next.span.lo) :
    (this.size + next.size).toNat = this.size.toNat + next.size.toNat := by
  refine toNat_add_of_lt ?_
  have bound : next.base.toNat + next.size.toNat ≤ 2 ^ 64 - 1 := fit
  have start : this.base.toNat + this.size.toNat = next.base.toNat := touch
  omega

/-- The span of a glued region. -/
theorem span_glue (fit : next.span.hi ≤ physAddrMax.toNat) (touch : this.span.hi = next.span.lo) :
    MemblockRegion.span { this with size := this.size + next.size } =
      ⟨this.span.lo, next.span.hi⟩ := by
  have start : this.base.toNat + this.size.toNat = next.base.toNat := touch
  simp only [MemblockRegion.span, toNat_glue fit touch, Span.mk.injEq, true_and]
  omega

/-- The merge loop glues what is ahead of its index and keeps the sum of the sizes. -/
theorem memblockMergeLoop_spec (turns : Nat) (done : List MemblockRegion)
    {rest : List MemblockRegion} (this : MemblockRegion) (enough : rest.length ≤ turns)
    (fit : RegionsFit (this :: rest)) :
    spansOf (memblockMergeLoop turns done.length (done ++ this :: rest)) =
        spansOf done ++ coalesce this.span (spansOf rest) ∧
      sizeSum (memblockMergeLoop turns done.length (done ++ this :: rest)) =
        sizeSum (done ++ this :: rest) ∧
      (memblockMergeLoop turns done.length (done ++ this :: rest)).length ≤
        (done ++ this :: rest).length := by
  induction rest generalizing turns done this with
  | nil =>
    cases turns with
    | zero | succ turns => simp [memblockMergeLoop, spansOf, coalesce]
  | cons next rest ih =>
    obtain ⟨turns, rfl⟩ := Nat.exists_eq_add_of_le' (one_le_of_lt enough)
    obtain ⟨fitThis, fitTail⟩ := (regionsFit_cons _ _).mp fit
    obtain ⟨fitNext, fitRest⟩ := (regionsFit_cons _ _).mp fitTail
    have enoughRest : rest.length ≤ turns := le_of_succ_le_succ enough
    have second : (done ++ this :: next :: rest)[done.length + 1]? = some next := by simp
    have spans : spansOf (next :: rest) = next.span :: spansOf rest := rfl
    rw [memblockMergeLoop, getElem?_length, second, spans, coalesce]
    have touches : this.base + this.size = next.base ↔ this.span.hi = next.span.lo := by
      rw [← UInt64.toNat_inj, toNat_end fitThis]
      rfl
    simp only [head?_cons, ne_eq, touches]
    split_ifs with touch
    rotate_left
    · have after := ih turns (done ++ [this]) next enoughRest fitTail
      rw [length_append, length_singleton, append_assoc, singleton_append] at after
      refine ⟨?_, after.2⟩
      rw [after.1]
      simp [spansOf]
    · have glued := span_glue fitNext touch
      rw [set_append_right _ _ le_rfl, eraseIdx_append_of_length_le (by omega), Nat.sub_self,
        Nat.add_sub_cancel_left, set_cons_zero, eraseIdx_cons_succ, eraseIdx_cons_zero]
      have after := ih turns done { this with size := this.size + next.size } enoughRest
        ((regionsFit_cons _ _).mpr ⟨by rw [glued]; exact fitNext, fitRest⟩)
      obtain ⟨gluedSpans, gluedSum, gluedLength⟩ := after
      refine ⟨by rw [gluedSpans, glued], ?_, ?_⟩
      · rw [gluedSum]
        simp only [sizeSum, map_append, map_cons, List.sum_append, sum_cons,
          toNat_glue fitNext touch]
        omega
      · refine gluedLength.trans ?_
        simp

/-! ### The two passes together -/

/-- The first pass counts the regions that the walk places, the second one places them. -/
theorem addPass_walked (insert : Bool) (type : MemblockType) (base limit : UInt64) :
    Walked insert [] (walk limit type.regions base) ⟨type, 0, base, 0⟩
      (addPass insert type base limit) :=
  addPassLoop_walked insert limit type.regions type.cnt le_rfl [] ⟨type, 0, base, 0⟩ rfl rfl

/-- Ascending regions that fit are together no larger than the addresses above their start. -/
theorem add_sizeSum_le {regions : List MemblockRegion} (fit : RegionsFit regions)
    (ascending : Ascending (spansOf regions)) {bottom : Nat}
    (above : ∀ region ∈ regions, bottom ≤ region.span.lo) (low : bottom ≤ physAddrMax.toNat) :
    bottom + sizeSum regions ≤ physAddrMax.toNat := by
  induction regions generalizing bottom with
  | nil => exact low
  | cons region rest ih =>
    obtain ⟨fits, fitRest⟩ := (regionsFit_cons _ _).mp fit
    obtain ⟨later, ascendingRest⟩ := (ascending_cons _ _).mp ascending
    have tail := ih fitRest ascendingRest
      (fun next member => later next.span (mem_map_of_mem member)) fits
    have start : bottom ≤ region.base.toNat := above region mem_cons_self
    have limit : region.span.hi = region.base.toNat + region.size.toNat := rfl
    have sum : sizeSum (region :: rest) = region.size.toNat + sizeSum rest := rfl
    omega

/-- The total of an arranged array does not wrap. -/
theorem MemblockType.Arranged.normalised (arranged : type.Arranged)
    (total : type.TotalMod) : type.Normalised := by
  have bound : sizeSum type.regions < 2 ^ 64 := by
    rcases arranged.shape with dummy | ⟨_, normal⟩
    · rw [dummy]
      decide
    · have sum := add_sizeSum_le arranged.fit normal.ascending (fun _ _ => zero_le _) (zero_le _)
      have max : physAddrMax.toNat < 2 ^ 64 := toNat_lt physAddrMax
      omega
  exact ⟨arranged, total.trans (mod_eq_of_lt bound)⟩

theorem MemblockType.Normalised.totalMod (normal : type.Normalised) : type.TotalMod := by
  rw [MemblockType.TotalMod, ← normal.total]
  exact (mod_eq_of_lt (toNat_lt _)).symm

/-! ### The range that is added -/

theorem toNat_le_physAddrMax (base : UInt64) : base.toNat ≤ physAddrMax.toNat :=
  le_of_lt_succ (toNat_lt base)

theorem toNat_memblockCapSize (base size : UInt64) :
    (memblockCapSize base size).toNat = min size.toNat (physAddrMax.toNat - base.toNat) := by
  rw [memblockCapSize, toNat_cmin, toNat_sub_of_toNat_le (toNat_le_physAddrMax base)]

theorem toNat_add_memblockCapSize (base size : UInt64) :
    (base + memblockCapSize base size).toNat =
      base.toNat + min size.toNat (physAddrMax.toNat - base.toNat) := by
  have bound := toNat_le_physAddrMax base
  have max : physAddrMax.toNat < 2 ^ 64 := toNat_lt physAddrMax
  have capped := toNat_memblockCapSize base size
  rw [toNat_add_of_lt (by omega), capped]

/-- The addresses a call with `base` and `size` asks for: the size is cut so that the range
does not reach beyond `PHYS_ADDR_MAX`. -/
def requested (base size : UInt64) : Set Nat :=
  Set.Ico base.toNat (base.toNat + min size.toNat (physAddrMax.toNat - base.toNat))

theorem covered_lt_physAddrMax (fit : RegionsFit type.regions)
    (member : address ∈ type.covered) : address < physAddrMax.toNat := by
  obtain ⟨_, spanMember, _, upper⟩ := member
  obtain ⟨region, regionMember, rfl⟩ := mem_map.mp spanMember
  exact upper.trans_le (fit region regionMember)

theorem regionsFit_of_cover {regions : List MemblockRegion} (filled : Filled (spansOf regions))
    (below : ∀ address ∈ cover (spansOf regions), address < physAddrMax.toNat) :
    RegionsFit regions := fun _ member =>
  hi_le_of_cover filled below (mem_map_of_mem member)

/-! ### One call -/

/-- The array after the second pass: ascending and exactly the union, but with neighbours that
may touch. -/
theorem addPass_spans (entries : Normal (spansOf type.regions))
    (fit : RegionsFit type.regions) (base size : UInt64) :
    let regions := (walk (base + memblockCapSize base size) type.regions base).1
    Filled (spansOf regions) ∧ Ascending (spansOf regions) ∧ RegionsFit regions ∧
      cover (spansOf regions) = type.covered ∪ requested base size := by
  intro regions
  have spans : spansOf regions = splice _ (spansOf type.regions) base.toNat := spansOf_walk fit base
  have union : cover (spansOf regions) = type.covered ∪ requested base size := by
    ext address
    rw [spans, mem_cover_splice, toNat_add_memblockCapSize]
    rfl
  have filled : Filled (spansOf regions) := by
    rw [spans]
    exact filled_splice _ _ entries.filled
  refine ⟨filled, ?_, regionsFit_of_cover filled fun address member => ?_, union⟩
  · rw [spans]
    exact ascending_splice _ _ entries.filled entries.ascending
  · rw [union] at member
    rcases member with old | new
    · exact covered_lt_physAddrMax fit old
    · have bound := toNat_le_physAddrMax base
      have upper : address < base.toNat + min size.toNat (physAddrMax.toNat - base.toNat) := new.2
      omega

/-- An arranged array whose first entry is empty is the dummy. -/
theorem MemblockType.Arranged.eq_dummy (arranged : type.Arranged)
    (empty : type.regions.head?.map MemblockRegion.size = some 0) : type.regions = [⟨0, 0⟩] := by
  rcases arranged.shape with dummy | ⟨_, spans⟩
  · exact dummy
  · cases entries : type.regions with
    | nil => simp [entries] at empty
    | cons region rest =>
      have positive : region.span.lo < region.span.hi :=
        spans.filled region.span (mem_map_of_mem (by simp [entries]))
      have zero : region.size = 0 := by simpa [entries] using empty
      simp [MemblockRegion.span, zero] at positive

/-- The first region of an array that held the dummy only. -/
theorem firstRegion_spec {max : Nat} (positive : 0 < size.toNat)
    (fits : base.toNat + size.toNat ≤ physAddrMax.toNat) (capacity : max = initMemblockRegions) :
    (MemblockType.mk [⟨base, size⟩] max size).Arranged ∧
      (MemblockType.mk [⟨base, size⟩] max size).covered =
        Set.Ico base.toNat (base.toNat + size.toNat) ∧
      (MemblockType.mk [⟨base, size⟩] max size).TotalMod := by
  have filled : (MemblockRegion.mk base size).span.lo < (MemblockRegion.mk base size).span.hi :=
    Nat.lt_add_of_pos_right positive
  refine ⟨⟨Or.inr ⟨cons_ne_nil _ _, Normal.singleton filled⟩, ?_, ?_, capacity⟩, ?_, ?_⟩
  · simpa [RegionsFit, MemblockRegion.span] using fits
  · show 1 ≤ max
    rw [capacity]
    decide
  · ext address
    simp [MemblockType.covered, spansOf, MemblockRegion.span]
  · simp [MemblockType.TotalMod, sizeSum]

/-- Merging the array that the second pass leaves. -/
theorem memblockMergeRegions_spec (entries : type.regions ≠ [])
    (filled : Filled (spansOf type.regions)) (ascending : Ascending (spansOf type.regions))
    (fit : RegionsFit type.regions) (room : type.cnt ≤ type.max)
    (capacity : type.max = initMemblockRegions) :
    (memblockMergeRegions type).Arranged ∧ (memblockMergeRegions type).covered = type.covered ∧
      (type.TotalMod → (memblockMergeRegions type).TotalMod) := by
  obtain ⟨this, rest, cons⟩ := exists_cons_of_ne_nil entries
  have loop := memblockMergeLoop_spec type.cnt [] this
    (by rw [MemblockType.cnt, cons]; exact le_succ _) (cons ▸ fit)
  simp only [← cons] at loop
  obtain ⟨spans, sum, length⟩ := loop
  have spans : spansOf (memblockMergeRegions type).regions = coalesce this.span (spansOf rest) :=
    spans
  have headed : spansOf type.regions = this.span :: spansOf rest := by
    rw [cons]
    rfl
  rw [headed] at filled ascending
  have same : (memblockMergeRegions type).covered = type.covered := by
    ext address
    rw [MemblockType.covered, spans, mem_cover_coalesce filled, MemblockType.covered, headed]
  have normal : Normal (spansOf (memblockMergeRegions type).regions) := by
    rw [spans]
    exact normal_coalesce filled ascending
  refine ⟨⟨Or.inr ⟨?_, normal⟩, ?_, length.trans room, capacity⟩, same, fun total => ?_⟩
  · intro none
    have start : this.base.toNat ∈ type.covered := by
      rw [MemblockType.covered, headed]
      exact ⟨this.span, mem_cons_self, le_rfl, filled _ mem_cons_self⟩
    rw [← same, MemblockType.covered, none] at start
    simp [spansOf] at start
  · exact regionsFit_of_cover normal.filled fun address member =>
      covered_lt_physAddrMax fit (same ▸ member)
  · exact total.trans (congrArg (· % 2 ^ 64) sum.symm)

/-- `memblock_add_range` keeps the entries arranged, adds exactly the requested addresses and
keeps the total. -/
theorem memblockAddRange_spec {after : MemblockType}
    (arranged : type.Arranged) (returns : memblockAddRange type base size = .ok after) :
    after.Arranged ∧ after.covered = type.covered ∪ requested base size ∧
      (type.TotalMod → after.TotalMod) := by
  unfold memblockAddRange at returns
  simp only at returns
  split_ifs at returns with none first covered room
  · have same := Except.ok.inj returns
    have empty : requested base size = ∅ := by
      rw [requested, ← toNat_memblockCapSize, none]
      exact Set.Ico_self _
    rw [← same, empty, Set.union_empty]
    exact ⟨arranged, rfl, id⟩
  · have positive : 0 < (memblockCapSize base size).toNat :=
      pos_of_ne_zero fun zero => none (UInt64.toNat_inj.mp zero)
    have dummy := arranged.eq_dummy first
    have before : type.covered = ∅ := by
      ext address
      simp [MemblockType.covered, dummy, spansOf, MemblockRegion.span]
    have bound : base.toNat + (memblockCapSize base size).toNat ≤ physAddrMax.toNat := by
      have start := toNat_le_physAddrMax base
      rw [toNat_memblockCapSize]
      omega
    obtain ⟨kept, covered, total⟩ := firstRegion_spec positive bound arranged.capacity
    rw [dummy] at returns
    rw [← Except.ok.inj returns, before, Set.empty_union, requested, ← toNat_memblockCapSize]
    exact ⟨kept, covered, fun _ => total⟩
  all_goals
    obtain ⟨entries, spans⟩ := arranged.shape.resolve_left fun dummy => first (by rw [dummy]; rfl)
    obtain ⟨filled, ascending, fit, union⟩ := addPass_spans spans arranged.fit base size
    obtain ⟨length, sublist⟩ := walk_spec (base + memblockCapSize base size) type.regions base
    rw [(addPass_walked ..).count, zero_add] at covered
  · rw [← sublist.eq_of_length (by rw [length, covered, add_zero])] at union
    rw [← Except.ok.inj returns, ← union]
    exact ⟨arranged, rfl, id⟩
  · rw [(addPass_walked ..).count, zero_add] at room
    obtain ⟨_, regions, total, max⟩ :=
      addPass_walked true type base (base + memblockCapSize base size)
    replace regions := (regions rfl).trans (nil_append _)
    rw [← regions] at filled ascending fit
    have merged := memblockMergeRegions_spec (by
        rw [regions]
        exact ne_nil_of_length_pos ((length_pos_of_ne_nil entries).trans_le sublist.length_le))
      filled ascending fit (by
        rw [MemblockType.cnt, regions, length, max]
        exact not_lt.mp room)
      (by rw [max]; exact arranged.capacity)
    rw [← Except.ok.inj returns, ← union, ← regions]
    exact ⟨merged.1, merged.2.1, fun before => merged.2.2 (total rfl before)⟩

theorem memblockAddRange_normalised {after : MemblockType}
    (normal : type.Normalised) (returns : memblockAddRange type base size = .ok after) :
    after.Normalised ∧ after.covered = type.covered ∪ requested base size := by
  obtain ⟨kept, union, total⟩ := memblockAddRange_spec normal.toArranged returns
  exact ⟨kept.normalised (total normal.totalMod), union⟩

/-! ### A run of calls -/

/-- A call of one of the two functions that add a range. -/
inductive MemblockCall where
  | add (base size : UInt64)
  | reserve (base size : UInt64)
  deriving DecidableEq, Repr

/-- One call on the global `memblock`. -/
def memblockCall (memblock : Memblock) : MemblockCall → Kernel Memblock
  | .add base size => memblockAdd memblock base size
  | .reserve base size => memblockReserve memblock base size

/-- Both arrays are arranged. -/
structure Memblock.Arranged (memblock : Memblock) : Prop where
  memory : memblock.memory.Arranged
  reserved : memblock.reserved.Arranged

/-- Both arrays are in normal form. -/
structure Memblock.Normalised (memblock : Memblock) : Prop where
  memory : memblock.memory.Normalised
  reserved : memblock.reserved.Normalised

theorem Memblock.Normalised.arranged (normal : memblock.Normalised) : memblock.Arranged :=
  ⟨normal.memory.toArranged, normal.reserved.toArranged⟩

theorem memblockReserve_ok :
    memblockReserve memblock base size = .ok after ↔
      ∃ reserved, memblockAddRange memblock.reserved base size = .ok reserved ∧
        after = { memblock with reserved } := by
  rw [memblockReserve, Kernel.bind_ok]
  simp only [pure, Except.pure, Except.ok.injEq, eq_comm]

theorem emptyMemblockType_normalised : emptyMemblockType.Normalised where
  shape := Or.inl rfl
  fit := by simp [RegionsFit, emptyMemblockType, MemblockRegion.span]
  total := rfl
  room := by decide
  capacity := rfl

theorem initialMemblock_normalised : initialMemblock.Normalised :=
  ⟨emptyMemblockType_normalised, emptyMemblockType_normalised⟩

/-- What one call does to the covered addresses of the two arrays. -/
def MemblockCall.Effect (before after : Memblock) : MemblockCall → Prop
  | .add base size =>
    after.memory.covered = before.memory.covered ∪ requested base size ∧
      after.reserved = before.reserved
  | .reserve base size =>
    after.reserved.covered = before.reserved.covered ∪ requested base size ∧
      after.memory = before.memory

theorem memblockCall_spec {call : MemblockCall}
    (normal : memblock.Normalised) (returns : memblockCall memblock call = .ok after) :
    after.Normalised ∧ call.Effect memblock after := by
  cases call with
  | add base size =>
    obtain ⟨memory, added, same⟩ := Kernel.bind_ok.mp returns
    cases same
    obtain ⟨kept, union⟩ := memblockAddRange_normalised normal.memory added
    exact ⟨⟨kept, normal.reserved⟩, union, rfl⟩
  | reserve base size =>
    obtain ⟨reserved, added, rfl⟩ := memblockReserve_ok.mp returns
    obtain ⟨kept, union⟩ := memblockAddRange_normalised normal.reserved added
    exact ⟨⟨normal.memory, kept⟩, union, rfl⟩

/-- Every state that calls reach from the initial one is in normal form. -/
theorem normalised_of_run {calls : List MemblockCall}
    (ran : Run.run memblockCall initialMemblock calls = .ok memblock) : memblock.Normalised :=
  Run.run_invariant (fun _ _ _ normal returns => (memblockCall_spec normal returns).1)
    initialMemblock_normalised ran

/-- After any calls, one more call leaves both arrays in normal form and adds exactly the
requested addresses to the array it touches. -/
theorem memblockCall_after_run {calls : List MemblockCall} {call : MemblockCall}
    {before : Memblock} (ran : Run.run memblockCall initialMemblock calls = .ok before)
    (returns : memblockCall before call = .ok after) :
    after.Normalised ∧ call.Effect before after :=
  memblockCall_spec (normalised_of_run ran) returns

/-- Three adds, the last of which bridges the gap between the first two. -/
theorem memblockCall_after_run_bridge :
    ∃ before after, Run.run memblockCall initialMemblock [.add 0x1000 0x1000, .add 0x3000 0x1000] =
        .ok before ∧
      memblockCall before (.add 0x1800 0x2000) = .ok after ∧
      after.memory.regions = [⟨0x1000, 0x3000⟩] ∧
      after.Normalised ∧ (MemblockCall.add 0x1800 0x2000).Effect before after := by
  have ran :
      Run.run memblockCall initialMemblock [.add 0x1000 0x1000, .add 0x3000 0x1000] = .ok _ :=
    rfl
  exact ⟨_, _, rfl, rfl, rfl, memblockCall_after_run ran rfl⟩

theorem MemblockType.Normalised.dummy_iff (normal : type.Normalised) :
    type.regions = [⟨0, 0⟩] ↔ type.covered = ∅ := by
  refine ⟨fun dummy => ?_, fun empty => normal.shape.resolve_right ?_⟩
  · ext
    simp [MemblockType.covered, dummy, spansOf, MemblockRegion.span]
  · rintro ⟨entries, spans⟩
    obtain ⟨_, member⟩ := exists_mem_of_ne_nil _ entries
    exact empty.subset (spans.filled.lo_mem_cover (mem_map_of_mem member))

theorem MemblockType.Normalised.eq_of_covered {other : MemblockType} (normal : type.Normalised)
    (normal' : other.Normalised) (same : type.covered = other.covered) : type = other := by
  have regions : type.regions = other.regions := by
    rcases normal.shape with empty | ⟨_, spans⟩
    · rw [empty, normal'.dummy_iff.mpr (same ▸ normal.dummy_iff.mp empty)]
    rcases normal'.shape with empty | ⟨_, spans'⟩
    · rw [empty, normal.dummy_iff.mpr (same ▸ normal'.dummy_iff.mp empty)]
    refine map_injective_iff.mpr (fun first second equal => ?_)
      (Pairwise.eq_of_mem_iff spans.pairwise_lo spans'.pairwise_lo fun span => ?_)
    · injection equal
      grind [MemblockRegion, UInt64.toNat_inj]
    · rw [← spansOf, ← spansOf, spans.mem_iff_isMaximal, spans'.mem_iff_isMaximal]
      exact congrArg (IsMaximal · span) same |>.to_iff
  have total := normal.total
  rw [regions, ← normal'.total, UInt64.toNat_inj] at total
  have max := normal.capacity.trans normal'.capacity.symm
  cases type
  cases other
  simp_all only

/-- Two runs that leave the same addresses in an array leave the same array, whatever their
calls. -/
theorem memblockCall_run_eq {first second : List MemblockCall}
    (ran : Run.run memblockCall initialMemblock first = .ok memblock)
    (ran' : Run.run memblockCall initialMemblock second = .ok after) :
    (memblock.memory.covered = after.memory.covered → memblock.memory = after.memory) ∧
      (memblock.reserved.covered = after.reserved.covered → memblock.reserved = after.reserved) :=
  ⟨(normalised_of_run ran).memory.eq_of_covered (normalised_of_run ran').memory,
    (normalised_of_run ran).reserved.eq_of_covered (normalised_of_run ran').reserved⟩

/-- A range, and two parts of it. -/
theorem memblockCall_run_eq_parts : ∃ memblock after,
    Run.run memblockCall initialMemblock [.add 0 8] = .ok memblock ∧
      Run.run memblockCall initialMemblock [.add 4 4, .add 0 6] = .ok after ∧
      memblock.memory = after.memory :=
  ⟨_, _, rfl, rfl, (@memblockCall_run_eq _ _ [.add 0 8] [.add 4 4, .add 0 6] rfl rfl).1 rfl⟩

end Xlinux
