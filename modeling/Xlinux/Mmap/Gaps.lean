/-
This file is about the tree of areas while an area is linked. First the gap of
the area behind the new one is brought up to date; then the new one is linked with
a gap of zero, its gap is brought up to date, and the tree is repaired. All of
this happens at one place of the tree, which only gets other gaps around it.
-/

import Xlinux.Mmap.Areas
import Xlinux.Rbtree.Maxima

namespace Xlinux

open RedBlack Cells

variable {frames other : List MaxFrame} {value old : UInt64 → UInt64}
  {memory : RbTree UInt64} {rest : NodeCells UInt64} {node : UInt64}

/-- The parent and the link of a place do not depend on entries. -/
theorem link_of_bare (same : frames.map Frame.bare = other.map Frame.bare) :
    parentOf 0 frames = parentOf 0 other ∧ linkOf frames = linkOf other := by
  cases frames with
  | nil =>
    rw [List.map_eq_nil_iff.mp same.symm]
    exact ⟨rfl, rfl⟩
  | cons frame rest =>
    cases other with
    | nil => cases same
    | cons first others =>
      have head : frame.bare = first.bare := (List.cons.inj same).1
      have side : frame.side = first.side := congrArg (·.1) head
      have label : frame.label = first.label := congrArg (·.2.2.1) head
      rw [parentOf, linkOf, side, label]
      exact ⟨rfl, rfl⟩

/-- The value of the first node after a place has changed, and its maximum and those above it are
computed again. -/
theorem Holds.maxPropagate_next {next : UInt64} {later : List UInt64}
    (first : labelsAfter frames = next :: later) (nodup : (fill frames .leaf).labels.Nodup)
    (sum : Summed (maxOver old) (fill frames .leaf))
    (same : ∀ node ∈ (fill frames .leaf).labels, node ≠ next → value node = old node)
    (holds : HoldsTree memory (fill frames .leaf) rest) :
    Returns (Xlinux.maxPropagate value next 0) memory () fun after =>
      ∃ other, other.map Frame.bare = frames.map Frame.bare ∧
        Summed (maxOver value) (fill other .leaf) ∧
        HoldsTree after (fill other .leaf) rest := by
  obtain ⟨inner, color, entry, sibling, outer, rfl⟩ := exists_frame_of_labelsAfter first
  have place : fill (inner ++ ⟨.left, color, next, entry, sibling⟩ :: outer) .leaf =
      fill outer (.node color (fill inner .leaf) next entry sibling) := by
    rw [fill_append]
    rfl
  rw [place] at holds nodup sum same
  refine (holds.maxPropagate value).mono fun after holds => ?_
  have refreshed := summed_refresh_congr nodup sum same
  rw [refresh, ← fill_append] at holds refreshed
  refine ⟨_, ?_, refreshed, holds⟩
  rw [List.map_append, List.map_append, map_bare_propagate]

end Xlinux
