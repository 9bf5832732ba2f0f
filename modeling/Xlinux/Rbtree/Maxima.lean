/-
This file is about insertion into red-black trees whose nodes have the maximum
of a value over their subtree, and removal from them. A new node has no maximum
of its own yet. The areas of a process are linked with the maximum zero, which is
brought up to date before the tree is repaired; the free ranges of the kernel's
address space are linked with whatever is in the field, the tree is repaired, and
then the field is set to zero and brought up to date. Bringing up to date stops at
the first node whose maximum does not change. In both orders all maxima are right
at the end.
-/

import Xlinux.Rbtree.Augmented
import Xlinux.Rbtree.Valid

namespace Xlinux

open RedBlack Cells

variable {frames other : List MaxFrame} {value : UInt64 → UInt64}
  {memory : RbTree UInt64} {tree : MaxTree} {node parent : UInt64} {link : RbLink}

/-! ### The callers -/

/-- The order of `__vma_link_rb`. -/
def linkPropagated (value : UInt64 → UInt64) (node parent : UInt64) (link : RbLink) :
    RbM UInt64 Unit := do
  rbLinkNode node parent link
  modifyNode node fun rb => { rb with entry := 0 }
  maxPropagate value node 0
  rbInsert (maxCallbacks value).rotate node

/-- The order of `link_va` and `augment_tree_propagate_from`. -/
def linkStale (value : UInt64 → UInt64) (node parent : UInt64) (link : RbLink) :
    RbM UInt64 Unit := do
  rbLinkNode node parent link
  rbInsert (maxCallbacks value).rotate node
  modifyNode node fun rb => { rb with entry := 0 }
  maxPropagate value node 0

/-! ### Insertion -/

/-- The maxima after a node was linked with the maximum zero and they were computed again. -/
theorem exists_refresh_linked (node : UInt64) (sum : Summed (maxOver value) (fill frames .leaf)) :
    ∃ other entry, other.map Frame.bare = frames.map Frame.bare ∧
      refresh (maxAugment value) frames .red .leaf node 0 .leaf =
        fill other (.node .red .leaf node entry .leaf) ∧
      Summed (maxOver value) (fill other (.node .red .leaf node entry .leaf)) := by
  have settled := settled_zero ((summed_fill_iff (totals_maxAugment value)).mp sum).2
  have refreshed :
      Summed (maxOver value) (refresh (maxAugment value) frames .red .leaf node 0 .leaf) :=
    summed_refresh (totals_maxAugment value) trivial trivial settled
  rw [refresh, propagate] at refreshed ⊢
  split_ifs at refreshed with same
  · rw [if_pos same]
    exact ⟨frames, 0, rfl, rfl, refreshed⟩
  · rw [if_neg same]
    exact ⟨_, _, map_bare_propagate .., rfl, refreshed⟩

/-- The tree is repaired after a node was linked and all maxima are right. -/
theorem summed_insertFix_leaf {entry : UInt64}
    (sum : Summed (maxOver value) (fill frames (.node .red .leaf node entry .leaf))) :
    Summed (maxOver value)
      (insertFix (maxAugment value) frames (.node .red .leaf node entry .leaf)) :=
  totaled_insertFix (totals_maxAugment value) sum
    (fun _ _ => ⟨not_false, rootCounts_all _⟩) fun _ => rootCounts_all _

/-- A red-black tree in memory with the maxima over its subtrees and some labels. -/
def MaximaKept (value : UInt64 → UInt64) (labels : List UInt64) (after : RbTree UInt64) : Prop :=
  ∃ next : MaxTree, Represents after next ∧ next.Valid ∧ Summed (maxOver value) next ∧
    next.labels = labels

namespace Represents

variable (represents : Represents memory tree)

include represents

section Link

variable (usable : Usable node) (fresh : node ∉ tree.labels)
  (position : LeafPosition memory tree parent link)

include usable fresh position

/-- A place for a new node, and its record beside the tree. -/
theorem place :
    ∃ frames, tree = fill frames .leaf ∧ parent = parentOf 0 frames ∧ link = linkOf frames ∧
      (insertAt (node, 0) tree.inorder link).map Prod.fst =
        labelsBefore frames ++ node :: labelsAfter frames ∧
      HoldsTree memory tree (cell node (memory.nodes node) + 0) := by
  have apart := represents.nodup
  obtain ⟨frames, rfl, rfl, rfl⟩ := represents.leaf_position position
  refine ⟨frames, rfl, rfl, rfl, ?_, represents.beside usable fresh⟩
  rw [insertAt_linkOf apart, List.map_append]
  rfl

variable (valid : tree.Valid) (sum : Summed (maxOver value) tree)

include valid sum

/-- The maximum of the new node is brought up to date before the tree is repaired. -/
theorem linkPropagated :
    Returns (linkPropagated value node parent link) memory ()
      (MaximaKept value ((insertAt (node, 0) tree.inorder link).map Prod.fst)) := by
  obtain ⟨_, rfl, rfl, rfl, labels, holds⟩ := represents.place usable fresh position
  obtain ⟨other, _, bare, refreshed, sumOther⟩ := exists_refresh_linked node sum
  have validOther : (fill other .leaf).Valid :=
    (valid_fill_congr (map_shape_of_bare bare)).mpr valid
  obtain ⟨before, after⟩ := labels_of_bare bare
  rw [labels]
  refine holds.rbLinkNode.bind fun _ holds => ?_
  refine (holds.setEntry 0).bind fun _ holds => ?_
  refine (holds.maxPropagate value).bind fun memory holds => ?_
  rw [refreshed] at holds
  refine (holds.rbInsertLinked (rotates_maxRotate value) validOther).mono fun last holds => ?_
  refine ⟨_, holds.of_eq (add_zero _), valid_insertFix_leaf validOther,
    summed_insertFix_leaf sumOther, ?_⟩
  rw [labels_insertFix_leaf, before, after]

/-- The tree is repaired before the maximum of the new node is brought up to date. -/
theorem linkStale :
    Returns (linkStale value node parent link) memory ()
      (MaximaKept value ((insertAt (node, 0) tree.inorder link).map Prod.fst)) := by
  have apart := represents.nodup
  obtain ⟨frames, rfl, rfl, rfl, labels, holds⟩ := represents.place usable fresh position
  have inserted : node ∈ (insertFix (maxAugment value) frames
      (.node .red .leaf node (memory.nodes node).entry .leaf)).labels := by
    rw [labels_insertFix_leaf]
    simp
  obtain ⟨place, color, left, entry, right, repaired⟩ := exists_fill_of_mem_labels inserted
  have validPlace : (fill place (.node color left node entry right)).Valid :=
    repaired ▸ valid_insertFix_leaf valid
  rw [labels]
  refine holds.rbLinkNode.bind fun _ holds => ?_
  refine (holds.rbInsertLinked (rotates_maxRotate value) valid).bind fun _ holds => ?_
  rw [repaired] at holds
  refine (holds.setEntry 0).bind fun _ holds => ?_
  refine (holds.maxPropagate value).mono fun last holds => ?_
  refine ⟨_, holds.of_eq (add_zero _), valid_refresh (valid_fill_entry validPlace 0),
    summed_maxInsert apart fresh sum repaired, ?_⟩
  rw [labels_refresh, labels_fill, labels_node, ← labels_node, ← labels_fill, ← repaired,
    labels_insertFix_leaf]

end Link

/-- A node is taken out. -/
theorem eraseMaxima (valid : tree.Valid) (sum : Summed (maxOver value) tree)
    (member : node ∈ tree.labels) :
    Returns (rbEraseWith (maxCallbacks value) node) memory ()
      (MaximaKept value (tree.labels.filter (· ≠ node))) := by
  have apart := represents.nodup
  obtain ⟨frames, color, left, entry, right, rfl⟩ := exists_fill_of_mem_labels member
  have whole : Holds memory (treeCells 0 (fill frames (.node color left node entry right)) + 0) _ :=
    represents.of_eq (add_zero _).symm
  refine ((lawful_maxCallbacks value).rbEraseWith valid whole).mono fun after holds => ?_
  refine ⟨_, ⟨holds.owns.part, holds.root⟩, valid_erase valid,
    summed_erase (totals_maxAugment value) sum, ?_⟩
  rw [labels_fill_node] at apart ⊢
  rw [labels_erase, filter_ne_label apart]
  simp

end Represents

/-- A tree with the maxima over its subtrees stays one when a node is linked at a leaf position, in
both orders, and when a node is taken out. -/
theorem rbInsert_rbErase_maxima (value : UInt64 → UInt64) (memory : RbTree UInt64)
    (tree : Tree UInt64 UInt64) (represents : Represents memory tree) (valid : tree.Valid)
    (sum : Summed (maxOver value) tree) :
    (∀ node parent link, Usable node → node ∉ tree.labels → LeafPosition memory tree parent link →
      Returns (linkPropagated value node parent link) memory ()
        (MaximaKept value ((insertAt (node, 0) tree.inorder link).map Prod.fst)) ∧
      Returns (linkStale value node parent link) memory ()
        (MaximaKept value ((insertAt (node, 0) tree.inorder link).map Prod.fst))) ∧
    ∀ node ∈ tree.labels, Returns (rbEraseWith (maxCallbacks value) node) memory ()
      (MaximaKept value (tree.labels.filter (· ≠ node))) :=
  ⟨fun _ _ _ usable fresh position => ⟨represents.linkPropagated usable fresh position valid sum,
    represents.linkStale usable fresh position valid sum⟩,
    fun _ member => represents.eraseMaxima valid sum member⟩

/-- A black root with a red right child, and their maxima. -/
def twoMaxima : Tree UInt64 UInt64 :=
  .node .black .leaf 8 20 (.node .red .leaf 16 20 .leaf)

def twoMaximaMemory : RbTree UInt64 where
  nodes ptr := if ptr = 8 then ⟨1, 16, 0, 20⟩ else ⟨8, 0, 0, 20⟩
  rbNode := 8

/-- A third node with a stale maximum is linked at the right of the second one, which rotates the
tree. -/
theorem rbInsert_rbErase_maxima_third : ∃ after,
    linkStale (fun node => if node = 8 then 10 else if node = 16 then 20 else 0) 24 16
      (.child 16 .right) twoMaximaMemory = .ok ((), after) ∧
    MaximaKept (fun node => if node = 8 then 10 else if node = 16 then 20 else 0) [8, 16, 24]
      after := by
  have valid : twoMaxima.Valid :=
    ⟨rfl, ⟨nofun, trivial, fun _ => ⟨rfl, rfl⟩, trivial, trivial⟩, 1, 0, rfl, rfl, 0, rfl, rfl, rfl⟩
  have represents : Represents twoMaximaMemory twoMaxima := {
    owns := {
      nodup := by decide
      usable := by decide
      holds := by simp [twoMaxima, treeCells, cell, twoMaximaMemory, rootPtr, packed, colorWord] }
    root := rfl }
  have sum : Summed (maxOver fun node => if node = 8 then 10 else if node = 16 then 20 else 0)
      twoMaxima := ⟨fun _ => rfl, trivial, fun _ => rfl, trivial, trivial⟩
  exact ((rbInsert_rbErase_maxima _ _ _ represents valid sum).1 24 16 (.child 16 .right)
    (by decide) (by decide) ⟨rfl, by decide, rfl⟩).2

end Xlinux
