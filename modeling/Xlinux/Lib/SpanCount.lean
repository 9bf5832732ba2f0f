/-
This file counts the points of ascending spans of numbers inside a window. The
part of a span inside `[lo, hi)` is found by clamping both ends, so the lengths
of the clamped spans add up to the number of points of the window that the
spans cover, and two windows side by side share out the lengths.
-/

import Xlinux.Lib.Spans

namespace Spans

open List

variable {lo hi : Nat}

/-- The number of points of a span. -/
def Span.size (span : Span Nat) : Nat := span.hi - span.lo

/-- A number moved into `[lo, hi]`. -/
def clampNat (lo hi point : Nat) : Nat := min (max point lo) hi

/-- The number of points of a span inside the window, by its clamped ends. -/
def Span.within (lo hi : Nat) (span : Span Nat) : Nat :=
  clampNat lo hi span.hi - clampNat lo hi span.lo

/-- Whether a point is covered, as a test. -/
def Covers (spans : List (Span Nat)) (point : Nat) : Prop :=
  ∃ span ∈ spans, span.lo ≤ point ∧ point < span.hi

instance (spans : List (Span Nat)) (point : Nat) : Decidable (Covers spans point) :=
  inferInstanceAs (Decidable (∃ span ∈ spans, span.lo ≤ point ∧ point < span.hi))

/-- The clamped lengths of ascending spans add up to the covered points of the window. -/
theorem sum_within {spans : List (Span Nat)} (lo hi : Nat) (ascending : Ascending spans) :
    (spans.map (Span.within lo hi)).sum = ((Finset.Ico lo hi).filter (Covers spans)).card := by
  induction spans with
  | nil =>
    rw [Finset.filter_false_of_mem]
    · rfl
    · rintro point _ ⟨_, member, _⟩
      cases member
  | cons span rest ih =>
    obtain ⟨later, ascendingRest⟩ := (ascending_cons _ _).mp ascending
    have apart : Disjoint (Finset.Ico lo hi ∩ Finset.Ico span.lo span.hi)
        ((Finset.Ico lo hi).filter (Covers rest)) := by
      refine Finset.disjoint_left.mpr fun point inSpan inRest => ?_
      obtain ⟨next, member, _, _⟩ := (Finset.mem_filter.mp inRest).2
      have before := later next member
      have below := (Finset.mem_Ico.mp (Finset.mem_inter.mp inSpan).2).2
      omega
    have split : (Finset.Ico lo hi).filter (Covers (span :: rest)) =
        Finset.Ico lo hi ∩ Finset.Ico span.lo span.hi ∪ (Finset.Ico lo hi).filter
          (Covers rest) := by
      ext point
      rw [Finset.mem_union, Finset.mem_inter, Finset.mem_filter, Finset.mem_filter, Covers,
        exists_mem_cons_iff, Finset.mem_Ico, Finset.mem_Ico]
      exact and_or_left
    have first : span.within lo hi = (Finset.Ico lo hi ∩ Finset.Ico span.lo span.hi).card := by
      rw [Finset.Ico_inter_Ico, Nat.card_Ico, Span.within, clampNat, clampNat]
      omega
    rw [map_cons, sum_cons, split, Finset.card_union_of_disjoint apart, first, ih ascendingRest]

theorem clampNat_cases (ordered : lo ≤ hi) (point : Nat) :
    point < lo ∧ clampNat lo hi point = lo ∨ hi < point ∧ clampNat lo hi point = hi ∨
      lo ≤ point ∧ point ≤ hi ∧ clampNat lo hi point = point := by
  unfold clampNat
  omega

theorem clampNat_min {point : Nat} (above : lo ≤ point) (below : point ≤ hi) (limit : Nat) :
    clampNat (min lo limit) (min hi limit) point = min point limit := by
  rw [clampNat, max_eq_left ((min_le_left _ _).trans above), ← min_assoc, min_eq_left below]

theorem clampNat_max {point : Nat} (above : lo ≤ point) (below : point ≤ hi) (limit : Nat) :
    clampNat (max lo limit) (max hi limit) point = max point limit := by
  rw [clampNat, ← max_assoc, max_eq_left above, min_eq_left (max_le_max_right limit below)]

/-- A limit cuts a span inside the window into the parts before and after it. -/
theorem within_add_within {span : Span Nat} (above : lo ≤ span.lo)
    (ordered : span.lo ≤ span.hi) (below : span.hi ≤ hi) (limit : Nat) :
    span.within (min lo limit) (min hi limit) + span.within (max lo limit) (max hi limit) =
      span.size := by
  rw [Span.within, Span.within, clampNat_min (above.trans ordered) below,
    clampNat_min above (ordered.trans below), clampNat_max (above.trans ordered) below,
    clampNat_max above (ordered.trans below), Span.size]
  omega

theorem Span.within_of_empty {span : Span Nat} (empty : span.hi ≤ span.lo) (lo hi : Nat) :
    span.within lo hi = 0 :=
  Nat.sub_eq_zero_of_le (min_le_min_right hi (max_le_max_right lo empty))

/-- Nothing lies inside an empty window. -/
theorem sum_within_empty (spans : List (Span Nat)) (empty : hi ≤ lo) :
    (spans.map (Span.within lo hi)).sum = 0 := by
  refine sum_eq_zero fun count member => ?_
  obtain ⟨_, _, rfl⟩ := mem_map.mp member
  unfold Span.within clampNat
  omega

/-- Empty spans do not count. -/
theorem sum_within_filter (spans : List (Span Nat)) (lo hi : Nat) :
    ((spans.filter fun span => span.lo < span.hi).map (Span.within lo hi)).sum =
      (spans.map (Span.within lo hi)).sum := by
  induction spans with
  | nil => rfl
  | cons span rest ih =>
    by_cases filled : span.lo < span.hi
    · rw [filter_cons_of_pos (by simpa using filled), map_cons, map_cons, sum_cons, sum_cons, ih]
    · rw [filter_cons_of_neg (by simpa using filled), map_cons, sum_cons,
        Span.within_of_empty (not_lt.mp filled), zero_add, ih]

end Spans
