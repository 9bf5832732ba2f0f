/-
This file is about areas in a tree that are in order: which areas stay in order
when they change, and between which areas a new one may go.
-/

import Xlinux.Vma.Areas

namespace Xlinux

open RedBlack List

/-- Areas in order, none of them empty. -/
structure Ordered (areas : VmapAreas) (nodes : List UInt64) : Prop where
  sorted : nodes.Pairwise fun one other => (areas one).vaEnd ≤ (areas other).vaStart
  nonempty : ∀ node ∈ nodes, (areas node).vaStart < (areas node).vaEnd

section Order

variable {areas : VmapAreas} {va : VmapArea} {node : UInt64} {nodes others : List UInt64}
  {frames : List MaxFrame} {tree : MaxTree}

theorem Ordered.sublist (ordered : Ordered areas nodes) (inside : others.Sublist nodes) :
    Ordered areas others :=
  ⟨ordered.sorted.sublist inside, fun node member => ordered.nonempty node (inside.subset member)⟩

theorem Ordered.congr {next : VmapAreas} (ordered : Ordered areas nodes)
    (same : ∀ node ∈ nodes, next node = areas node) : Ordered next nodes where
  sorted := by
    refine ordered.sorted.imp_of_mem fun {one other} oneIn otherIn less => ?_
    rw [same one oneIn, same other otherIn]
    exact less
  nonempty node member := by
    rw [same node member]
    exact ordered.nonempty node member

/-- Areas that get smaller stay in order. -/
theorem Ordered.shrink {next : VmapAreas} (ordered : Ordered areas nodes)
    (inside : ∀ node ∈ nodes, (areas node).vaStart ≤ (next node).vaStart ∧
      (next node).vaEnd ≤ (areas node).vaEnd ∧ (next node).vaStart < (next node).vaEnd) :
    Ordered next nodes where
  sorted := by
    refine ordered.sorted.imp_of_mem fun {one other} oneIn otherIn less => ?_
    exact UInt64.le_trans (inside one oneIn).2.1 (UInt64.le_trans less (inside other otherIn).1)
  nonempty node member := (inside node member).2.2

/-- An area that goes between others. -/
theorem Ordered.insert (ordered : Ordered areas (nodes ++ others))
    (nonempty : (areas node).vaStart < (areas node).vaEnd)
    (before : ∀ one ∈ nodes, (areas one).vaEnd ≤ (areas node).vaStart)
    (after : ∀ one ∈ others, (areas node).vaEnd ≤ (areas one).vaStart) :
    Ordered areas (nodes ++ node :: others) where
  sorted := by
    obtain ⟨first, second, across⟩ := pairwise_append.mp ordered.sorted
    refine pairwise_append.mpr ⟨first, pairwise_cons.mpr ⟨after, second⟩, ?_⟩
    intro one inNodes other member
    rcases mem_cons.mp member with rfl | later
    · exact before one inNodes
    · exact across one inNodes other later
  nonempty one member := by
    rcases mem_append.mp member with inNodes | later
    · exact ordered.nonempty one (mem_append_left _ inNodes)
    · rcases mem_cons.mp later with rfl | inOthers
      · exact nonempty
      · exact ordered.nonempty one (mem_append_right _ inOthers)

/-- An area is on the side of a node on which the place below is. -/
def Apart (areas : VmapAreas) (va : VmapArea) (frame : MaxFrame) : Prop :=
  match frame.side with
  | .left => va.vaEnd ≤ (areas frame.label).vaStart
  | .right => (areas frame.label).vaEnd ≤ va.vaStart

/-- What is on the right side of the nodes above a place goes there. -/
theorem Ordered.placed (ordered : Ordered areas (fill frames tree).labels)
    (apart : ∀ frame ∈ frames, Apart areas va frame) :
    (∀ one ∈ labelsBefore frames, (areas one).vaEnd ≤ va.vaStart) ∧
      ∀ one ∈ labelsAfter frames, va.vaEnd ≤ (areas one).vaStart := by
  induction frames generalizing tree with
  | nil => exact ⟨nofun, nofun⟩
  | cons frame rest ih =>
    obtain ⟨here, above⟩ := forall_mem_cons.mp apart
    have place : Ordered areas (fill rest (frame.plug tree)).labels := ordered
    obtain ⟨before, after⟩ := ih place above
    have plugged := place
    rw [labels_fill] at plugged
    replace plugged := plugged.sublist ((sublist_append_left ..).trans (sublist_append_right ..))
    rw [Frame.plug, labels_join] at plugged
    rw [labelsBefore_cons, labelsAfter_cons]
    unfold Apart at here
    cases side : frame.side with
    | left =>
      simp only [side, append_nil] at here plugged ⊢
      refine ⟨before, fun one member => ?_⟩
      rcases mem_append.mp member with inFrame | later
      · rcases mem_cons.mp inFrame with rfl | inSibling
        · exact here
        · have pair := (pairwise_append.mp plugged.sorted).2.1
          have order := (pairwise_cons.mp pair).1 one inSibling
          have wide := plugged.nonempty frame.label (by simp)
          exact UInt64.le_trans here (UInt64.le_trans (UInt64.le_of_lt wide) order)
      · exact after one later
    | right =>
      simp only [side] at here plugged ⊢
      refine ⟨fun one member => ?_, after⟩
      rcases mem_append.mp member with earlier | inFrame
      · exact before one earlier
      · rcases mem_append.mp inFrame with inSibling | same
        · have order := (pairwise_append.mp plugged.sorted).2.2 one inSibling frame.label
            mem_cons_self
          have wide := plugged.nonempty frame.label (by simp)
          exact UInt64.le_trans order (UInt64.le_trans (UInt64.le_of_lt wide) here)
        · rw [mem_singleton.mp same]
          exact here

end Order

end Xlinux
