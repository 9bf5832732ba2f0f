/-
This file puts the operations on red-black trees together. A tree in memory is
represented by a tree of node addresses; a node is linked at a leaf position and
the tree repaired, or a node is taken out. The results are red-black trees
again, with one node more or less in between.
-/

import Xlinux.Rbtree.Insert
import Xlinux.Rbtree.Unlink

namespace Xlinux

open RedBlack Cells List

variable {α : Type} {memory : RbTree α} {tree : Tree UInt64 α}
  {rest : NodeCells α} {frames : List (Frame UInt64 α)}
variable {node : UInt64}

/-! ### Linking a node -/

/-- The field in which what is at a place hangs. -/
def linkOf : List (Frame UInt64 α) → RbLink
  | [] => .root
  | frame :: _ => .child frame.label frame.side

/-- `rb_link_node` puts a red node at a place where there was none. -/
theorem Holds.rbLinkNode {record : RbNode α}
    (holds : HoldsTree memory (fill frames .leaf) (cell node record + rest)) :
    Returns (Xlinux.rbLinkNode node (parentOf 0 frames) (linkOf frames)) memory () fun after =>
      HoldsTree after (fill frames (.node .red .leaf node record.entry .leaf)) rest := by
  have linked : treeCells (parentOf 0 frames) (.node .red .leaf node record.entry .leaf) =
      cell node { record with rbParentColor := parentOf 0 frames, rbRight := 0, rbLeft := 0 } := by
    rw [treeCells, treeCells, packed_red, add_zero, add_zero, rootPtr]
  rw [holdsTree_fill, HoldsAt, treeCells, zero_add] at holds
  refine ((acts_modifyNode node _ record).at_second holds).bind fun memory holds => ?_
  simp only [holdsTree_fill, HoldsAt, linked]
  cases frames with
  | nil => exact ⟨{ memory with rbNode := node }, rfl, holds.owns, rfl⟩
  | cons frame outer => exact (acts_setRbChild_hole frame outer 0 0 node).at_first holds

section

variable {augment : Augment UInt64 α} {augmentRotate : AugmentRotate α}
  (rotates : Rotates augment augmentRotate) (valid : (fill frames .leaf).Valid)

include rotates valid

/-- `__rb_insert` repairs a tree in which a red node was linked. -/
theorem Holds.rbInsertLinked {entry : α}
    (holds : HoldsTree memory (fill frames (.node .red .leaf node entry .leaf)) rest) :
    Returns (Xlinux.rbInsert augmentRotate node) memory () fun after =>
      HoldsTree after (insertFix augment frames (.node .red .leaf node entry .leaf)) rest := by
  obtain ⟨_, path, _⟩ := valid_fill_iff.mp valid
  rw [holdsTree_fill] at holds
  have cells := holds
  refine Returns.read cells.at_second.rbRedParent ?_
  have red : (RedBlack.Tree.node .red .leaf node entry .leaf).isRed = true := rfl
  have loop := holds.rbInsertLoop rotates red path holds.length_lt
  rw [packed_red]
  exact loop

/-- `rb_link_node` and `__rb_insert` put a node at a place where there was none. -/
theorem Holds.rbInsert {record : RbNode α}
    (holds : HoldsTree memory (fill frames .leaf) (cell node record + rest)) :
    Returns (do
      Xlinux.rbLinkNode node (parentOf 0 frames) (linkOf frames)
      Xlinux.rbInsert augmentRotate node) memory () fun after =>
      HoldsTree after (insertFix augment frames (.node .red .leaf node record.entry .leaf)) rest :=
  holds.rbLinkNode.bind fun _ linked => linked.rbInsertLinked rotates valid

end

/-! ### Trees in memory -/

/-- Memory has a tree: every node of it has the addresses of its children and, with its color, that
of its parent, and the nodes are at different addresses that leave room for the color. -/
def Represents (memory : RbTree α) (tree : Tree UInt64 α) : Prop :=
  Holds memory (treeCells 0 tree) (rootPtr tree)

/-- A leaf position: an empty tree, or a child field of a node in which there is `NULL`. -/
def LeafPosition (memory : RbTree α) (tree : Tree UInt64 α) (parent : UInt64) : RbLink → Prop
  | .root => parent = 0 ∧ memory.rbNode = 0
  | .child rb side => parent = rb ∧ rb ∈ tree.labels ∧ (memory.nodes rb).child side = 0

/-- Nodes from left to right, with one added at a leaf position. -/
def insertAt (one : UInt64 × α) (nodes : List (UInt64 × α)) : RbLink → List (UInt64 × α)
  | .root => one :: nodes
  | .child rb side => nodes.flatMap fun other =>
    if other.1 = rb then
      match side with
      | .left => [one, other]
      | .right => [other, one]
    else [other]

theorem map_fst_treeCells (parent : UInt64) (tree : Tree UInt64 α) :
    (treeCells parent tree).map Prod.fst = (tree.labels : Multiset UInt64) := by
  induction tree generalizing parent with
  | leaf => rfl
  | node color left label entry right leftLabels rightLabels =>
    simp only [treeCells, cell, Multiset.map_add, Multiset.map_singleton, leftLabels, rightLabels,
      Tree.labels, Tree.inorder, map_append, map_cons]
    rw [← Multiset.coe_add, ← Multiset.cons_coe, ← Multiset.singleton_add]
    abel

theorem Represents.nodup (represents : Represents memory tree) : tree.labels.Nodup := by
  have apart := represents.owns.nodup
  rwa [map_fst_treeCells] at apart

theorem Represents.ne_zero_of_ne_leaf {subtree : Tree UInt64 α}
    (represents : Represents memory (fill frames subtree)) (nonempty : subtree ≠ .leaf) :
    rootPtr subtree ≠ 0 := by
  have holds : Holds memory _ _ := represents
  rw [treeCells_fill, add_comm] at holds
  exact holds.rootPtr_ne_zero nonempty

theorem Represents.eq_leaf {subtree : Tree UInt64 α}
    (represents : Represents memory (fill frames subtree)) (null : rootPtr subtree = 0) :
    subtree = .leaf :=
  by_contra fun nonempty => represents.ne_zero_of_ne_leaf nonempty null

section Walk

variable {left right : Tree UInt64 α} {color : Color} {label : UInt64} {entry : α}

section

variable (represents : Represents memory (fill frames (.node color left label entry right)))

include represents

theorem Represents.at_place :
    At memory label ⟨packed (parentOf 0 frames) color, rootPtr right, rootPtr left, entry⟩ := by
  have holds : Holds memory _ _ := represents
  rw [treeCells_fill] at holds
  exact holds.at_second

theorem Represents.at_left :
    Represents memory (fill (⟨.left, color, label, entry, right⟩ :: frames) left) :=
  represents

theorem Represents.at_right :
    Represents memory (fill (⟨.right, color, label, entry, left⟩ :: frames) right) :=
  represents

end

theorem Represents.rbChild (represents : Represents memory (fill frames tree))
    (nonempty : tree ≠ .leaf) (side : Side) :
    Xlinux.rbChild side (rootPtr tree) memory = .ok (rootPtr (tree.child side), memory) := by
  cases tree with
  | leaf => exact absurd rfl nonempty
  | node color left label entry right =>
    rw [rootPtr, represents.at_place.rbChild]
    cases side <;> rfl

theorem Represents.rbParent (represents : Represents memory (fill frames tree))
    (nonempty : tree ≠ .leaf) :
    Xlinux.rbParent (rootPtr tree) memory = .ok (parentOf 0 frames, memory) := by
  have holds : Holds memory _ _ := represents
  rw [treeCells_fill] at holds
  cases tree with
  | leaf => exact absurd rfl nonempty
  | node color left label entry right =>
    rw [rootPtr, represents.at_place.rbParent, rbParentOf_packed holds.free_parentOf]

/-- There are fewer nodes than turns. -/
theorem Represents.length_labels_lt {tree : Tree UInt64 α} (represents : Represents memory tree) :
    tree.labels.length < maxTurns := by
  have few := represents.card_lt
  rwa [card_treeCells, ← length_map] at few

theorem read_bind {β γ : Type} {code : RbM α β} {after : β → RbM α γ} {value : β}
    (ran : code memory = .ok (value, memory)) : (code >>= after) memory = after value memory := by
  show (code memory >>= _) = _
  rw [ran]
  rfl

theorem Represents.readRbLink (represents : Represents memory (fill frames tree)) :
    Xlinux.readRbLink (linkOf frames) memory = .ok (rootPtr tree, memory) := by
  cases frames with
  | nil =>
    have root : memory.rbNode = rootPtr tree := represents.root
    rw [← root]
    rfl
  | cons frame rest =>
    have place : Represents memory (fill rest (frame.plug tree)) := represents
    have child := place.rbChild Tree.join_ne_leaf frame.side
    rw [Frame.plug, rootPtr_join, Tree.child_join] at child
    exact child

end Walk

/-- A leaf position is a place at which there is nothing. -/
theorem Represents.leaf_position {parent : UInt64} {link : RbLink}
    (represents : Represents memory tree) (position : LeafPosition memory tree parent link) :
    ∃ frames, tree = fill frames .leaf ∧ parent = parentOf 0 frames ∧ link = linkOf frames := by
  cases link with
  | root =>
    obtain ⟨top, empty⟩ := position
    have place : Represents memory (fill [] tree) := represents
    exact ⟨[], place.eq_leaf (represents.root.symm.trans empty), top, rfl⟩
  | child rb side =>
    obtain ⟨rfl, member, null⟩ := position
    obtain ⟨⟨label, entry⟩, found, rfl⟩ := mem_map.mp member
    obtain ⟨frames, color, left, right, rfl⟩ := exists_fill_of_mem found
    rw [represents.at_place.same] at null
    cases side with
    | left =>
      obtain rfl := represents.at_left.eq_leaf null
      exact ⟨⟨.left, color, label, entry, right⟩ :: frames, rfl, rfl, rfl⟩
    | right =>
      obtain rfl := represents.at_right.eq_leaf null
      exact ⟨⟨.right, color, label, entry, left⟩ :: frames, rfl, rfl, rfl⟩

/-! ### The order of the nodes -/

section Order

variable {nodes before after : List (UInt64 × α)} {one : UInt64 × α} {rb : UInt64} {entry : α}

theorem insertAt_of_not_mem (absent : rb ∉ nodes.map Prod.fst) (side : Side) :
    insertAt one nodes (.child rb side) = nodes := by
  induction nodes with
  | nil => rfl
  | cons node nodes ih =>
    rw [map_cons, mem_cons, not_or] at absent
    have tail := ih absent.2
    rw [insertAt] at tail ⊢
    rw [flatMap_cons, tail, if_neg (Ne.symm absent.1), singleton_append]

theorem insertAt_append (nodes others : List (UInt64 × α)) (side : Side) :
    insertAt one (nodes ++ others) (.child rb side) =
      insertAt one nodes (.child rb side) ++ insertAt one others (.child rb side) :=
  flatMap_append

/-- A node goes right before or right after the one under which it is linked. -/
theorem insertAt_child (apart : ((before ++ (rb, entry) :: after).map Prod.fst).Nodup)
    (side : Side) :
    insertAt one (before ++ (rb, entry) :: after) (.child rb side) = before ++ ((match side with
        | .left => [one, (rb, entry)]
        | .right => [(rb, entry), one]) ++ after) := by
  rw [map_append, map_cons, nodup_middle, nodup_cons, mem_append, not_or] at apart
  rw [← singleton_append, insertAt_append, insertAt_append, insertAt_of_not_mem apart.1.1,
    insertAt_of_not_mem apart.1.2]
  cases side <;> simp [insertAt]

/-- Adding at a place is adding at its link. -/
theorem insertAt_linkOf {frames : List (Frame UInt64 α)}
    (apart : (fill frames .leaf).labels.Nodup) :
    insertAt one (fill frames .leaf).inorder (linkOf frames) =
      RedBlack.before id frames ++ one :: RedBlack.after id frames := by
  rw [Tree.labels, ← Tree.parts_id, parts_fill, Tree.parts_leaf] at apart
  rw [← Tree.parts_id, parts_fill, Tree.parts_leaf]
  cases frames with
  | nil => rfl
  | cons frame outer =>
    rw [before, RedBlack.after] at apart ⊢
    rw [linkOf]
    cases side : frame.side with
    | left =>
      rw [side] at apart
      exact insertAt_child apart .left
    | right =>
      rw [side] at apart
      simp only [append_assoc, cons_append] at apart ⊢
      rw [← append_assoc] at apart ⊢
      rw [insertAt_child apart]
      simp

theorem filter_ne {β : Type} {before after : List β} {one : β} (key : β → UInt64)
    (apart : ((before ++ one :: after).map key).Nodup) :
    (before ++ one :: after).filter (key · ≠ key one) = before ++ after := by
  rw [map_append, map_cons, nodup_middle, nodup_cons, mem_append, not_or] at apart
  have stays : ∀ nodes : List β, key one ∉ nodes.map key →
      nodes.filter (key · ≠ key one) = nodes := by
    intro nodes absent
    refine filter_eq_self.mpr fun node member => decide_eq_true fun same => absent ?_
    exact same ▸ mem_map_of_mem member
  rw [filter_append, filter_cons_of_neg (by simp), stays before apart.1.1, stays after apart.1.2]

theorem filter_ne_label {node : UInt64} {before after : List UInt64}
    (apart : (before ++ node :: after).Nodup) :
    (before ++ node :: after).filter (· ≠ node) = before ++ after :=
  filter_ne id (by rwa [map_id])

end Order

/-! ### Insertion and removal -/

theorem keeps_none : (Augment.none UInt64 α).Keeps id :=
  ⟨fun _ _ => rfl, fun _ _ _ _ => rfl⟩

/-- A node that is not in the tree has its cell beside it. -/
theorem Represents.beside (represents : Represents memory tree) (usable : Usable node)
    (fresh : node ∉ tree.labels) : HoldsTree memory tree (cell node (memory.nodes node) + 0) := by
  have absent : node ∉ (treeCells 0 tree).map Prod.fst := by rwa [map_fst_treeCells]
  exact Holds.of_eq ⟨represents.owns.add usable absent, represents.root⟩ (by abel)

/-- A node is added at a leaf position. -/
theorem Represents.rbInsertColor {parent : UInt64} {link : RbLink}
    (represents : Represents memory tree) (valid : tree.Valid) (usable : Usable node)
    (fresh : node ∉ tree.labels) (position : LeafPosition memory tree parent link) :
    ∃ after next, (do
        rbLinkNode node parent link
        rbInsertColor node : RbM α Unit) memory = .ok ((), after) ∧
      Represents after next ∧ next.Valid ∧
      next.inorder = insertAt (node, (memory.nodes node).entry) tree.inorder link := by
  have apart := represents.nodup
  obtain ⟨_, rfl, rfl, rfl⟩ := represents.leaf_position position
  obtain ⟨after, ran, holds⟩ := (represents.beside usable fresh).rbInsert rotates_dummy valid
  refine ⟨after, _, ran, holds.of_eq (add_zero _), valid_insertFix_leaf valid, ?_⟩
  rw [insertAt_linkOf apart, ← Tree.parts_id, parts_insertFix keeps_none, parts_fill]
  rfl

/-- A node is taken out. -/
theorem Represents.rbErase (represents : Represents memory tree)
    (valid : tree.Valid) (member : node ∈ tree.labels) :
    ∃ after next, rbErase node memory = .ok ((), after) ∧ Represents after next ∧ next.Valid ∧
      next.inorder = tree.inorder.filter (·.1 ≠ node) := by
  classical
  have apart := represents.nodup
  obtain ⟨⟨label, entry⟩, found, rfl⟩ := mem_map.mp member
  obtain ⟨frames, color, left, right, rfl⟩ := exists_fill_of_mem found
  have whole :
      Holds memory (treeCells 0 (fill frames (.node color left label entry right)) + 0) _ :=
    represents.of_eq (add_zero _).symm
  obtain ⟨after, ran, holds⟩ := lawful_dummy.rbEraseWith valid whole
  refine ⟨after, erase (Augment.none UInt64 α) frames color left entry right, ran, ?_,
    valid_erase valid, ?_⟩
  · exact ⟨holds.owns.part, holds.root⟩
  · have inorder : (fill frames (RedBlack.Tree.node color left label entry right)).inorder =
        (before id frames ++ left.inorder) ++ (label, entry) :: (right.inorder ++
          RedBlack.after id frames) := by
      rw [← Tree.parts_id, parts_fill]
      simp [Tree.parts_id]
    rw [Tree.labels, inorder] at apart
    rw [inorder, filter_ne Prod.fst apart, ← Tree.parts_id, parts_erase keeps_none, Tree.parts_id,
      Tree.parts_id]
    simp

/-- A node linked at a leaf position of a red-black tree, or a node taken out of one: the result is
a red-black tree, and the other nodes stay in order. -/
theorem rbInsertColor_rbErase_valid (memory : RbTree α) (tree : Tree UInt64 α)
    (represents : Represents memory tree) (valid : tree.Valid) :
    (∀ node parent link, Usable node → node ∉ tree.labels → LeafPosition memory tree parent link →
      ∃ after next, (do
          rbLinkNode node parent link
          rbInsertColor node : RbM α Unit) memory = .ok ((), after) ∧
        Represents after next ∧ next.Valid ∧
        next.inorder = insertAt (node, (memory.nodes node).entry) tree.inorder link) ∧
    ∀ node ∈ tree.labels,
      ∃ after next, rbErase node memory = .ok ((), after) ∧ Represents after next ∧ next.Valid ∧
        next.inorder = tree.inorder.filter (·.1 ≠ node) :=
  ⟨fun _ _ _ usable fresh position => represents.rbInsertColor valid usable fresh position,
    fun _ member => represents.rbErase valid member⟩

/-- A black root with a red right child. -/
def twoNodes : Tree UInt64 UInt64 :=
  .node .black .leaf 8 1 (.node .red .leaf 16 2 .leaf)

def twoNodesMemory : RbTree UInt64 where
  nodes ptr := if ptr = 8 then ⟨1, 16, 0, 1⟩ else ⟨8, 0, 0, 2⟩
  rbNode := 8

theorem represents_twoNodes : Represents twoNodesMemory twoNodes where
  owns := {
    nodup := by decide
    usable := by decide
    holds := by simp [twoNodes, treeCells, cell, twoNodesMemory, rootPtr, packed, colorWord] }
  root := rfl

theorem rbInsertColor_rbErase_valid_twoNodes : ∃ after next,
    rbErase 8 twoNodesMemory = .ok ((), after) ∧ Represents after next ∧ next.Valid ∧
      next.inorder = twoNodes.inorder.filter (·.1 ≠ 8) :=
  (rbInsertColor_rbErase_valid twoNodesMemory twoNodes represents_twoNodes
    ⟨rfl, ⟨nofun, trivial, fun _ => ⟨rfl, rfl⟩, trivial, trivial⟩, 1, 0, rfl, rfl, 0, rfl,
      rfl, rfl⟩).2 8
    (by decide)

end Xlinux
