/-
This file is about a walk through the numbers from one on that collects those of
a set in spans: the numbers since the last hole are pending, and a hole ends the
span of what is pending. The spans are the maximal ones of the set.
-/

import Xlinux.Lib.Spans

namespace Spans

/-- Add a span to a list, unless it is empty. -/
def addSpan (done : List (Span Nat)) (span : Span Nat) : List (Span Nat) :=
  if span.lo < span.hi then done ++ [span] else done

/-- The walk from `lo` has come to `here`. The spans that are done cover the numbers below the
pending ones. -/
structure Scanned (points : Set Nat) (lo pending here : Nat) (done : List (Span Nat)) : Prop where
  low : lo ≤ pending
  high : pending ≤ here
  normal : Normal done
  ended : ∀ span ∈ done, span.hi < pending
  covers : ∀ point, point ∈ cover done ↔ lo ≤ point ∧ point < pending ∧ point ∈ points
  collects : ∀ point, pending ≤ point → point < here → point ∈ points

variable {points : Set Nat} {lo pending here : Nat} {done : List (Span Nat)}

theorem Scanned.start (points : Set Nat) (lo : Nat) : Scanned points lo lo lo [] where
  low := le_rfl
  high := le_rfl
  normal := Normal.nil
  ended := nofun
  covers point := by
    rw [mem_cover_nil]
    exact iff_of_false id fun inside => absurd (inside.1.trans_lt inside.2.1) (lt_irrefl lo)
  collects point above below := absurd below (not_lt.mpr above)

namespace Scanned

variable (scanned : Scanned points lo pending here done)

include scanned

/-- A number of the set is added to the pending ones. -/
theorem take (member : here ∈ points) : Scanned points lo pending (here + 1) done where
  low := scanned.low
  high := scanned.high.trans (Nat.le_succ here)
  normal := scanned.normal
  ended := scanned.ended
  covers := scanned.covers
  collects point above below := by
    rcases Nat.lt_succ_iff_lt_or_eq.mp below with before | rfl
    · exact scanned.collects point above before
    · exact member

theorem normal_addSpan : Normal (addSpan done ⟨pending, here⟩) := by
  rw [addSpan]
  split
  · next filled =>
    refine ⟨fun span member => ?_, List.pairwise_append.mpr ⟨scanned.normal.separated, ?_, ?_⟩⟩
    · rcases List.mem_append.mp member with old | new
      · exact scanned.normal.filled span old
      · rw [List.mem_singleton.mp new]
        exact filled
    · exact List.pairwise_singleton _ _
    · intro span old next new
      rw [List.mem_singleton.mp new]
      exact scanned.ended span old
  · exact scanned.normal

theorem cover_addSpan (point : Nat) :
    point ∈ cover (addSpan done ⟨pending, here⟩) ↔ lo ≤ point ∧ point < here ∧ point ∈ points := by
  have low := scanned.low
  have high := scanned.high
  have collects := scanned.collects point
  have covers := scanned.covers point
  rw [addSpan]
  split
  · next filled =>
    rw [mem_cover_append, covers, mem_cover_cons, mem_cover_nil, or_false]
    constructor
    · rintro (⟨above, below, member⟩ | ⟨above, below⟩)
      · exact ⟨above, below.trans_le high, member⟩
      · exact ⟨low.trans above, below, collects above below⟩
    · rintro ⟨above, below, member⟩
      rcases lt_or_ge point pending with before | after
      · exact .inl ⟨above, before, member⟩
      · exact .inr ⟨after, below⟩
  · next empty =>
    have same : pending = here := le_antisymm high (not_lt.mp empty)
    rw [covers, same]

/-- A number outside of the set ends the pending span. -/
theorem flush (hole : here ∉ points) :
    Scanned points lo (here + 1) (here + 1) (addSpan done ⟨pending, here⟩) where
  low := by
    have low := scanned.low
    have high := scanned.high
    omega
  high := le_rfl
  normal := scanned.normal_addSpan
  ended span member := by
    have high := scanned.high
    rw [addSpan] at member
    split at member
    · rcases List.mem_append.mp member with old | new
      · have := scanned.ended span old
        omega
      · rw [List.mem_singleton.mp new]
        exact Nat.lt_succ_self here
    · have := scanned.ended span member
      omega
  covers point := by
    rw [scanned.cover_addSpan]
    refine and_congr_right fun _ => and_congr_left fun member => ?_
    have other : point ≠ here := fun same => hole (same ▸ member)
    omega
  collects point above below := absurd below (not_lt.mpr above)

/-- At the end the spans are the maximal ones. -/
theorem mem_iff_isMaximal (span : Span Nat) :
    span ∈ addSpan done ⟨pending, here⟩ ↔
      IsMaximal {point | lo ≤ point ∧ point < here ∧ point ∈ points} span := by
  rw [scanned.normal_addSpan.mem_iff_isMaximal]
  have same : cover (addSpan done ⟨pending, here⟩) =
      {point | lo ≤ point ∧ point < here ∧ point ∈ points} := Set.ext scanned.cover_addSpan
  rw [same]

end Scanned

end Spans
