/-
This file models `rbtree/rbtree.c` and the inline functions of
`include/rbtree.h`. A node is known by its address, `0` being `NULL`; the word
`__rb_parent_color` has the address of the parent and, in its lowest bit, the
color. Where the source has two branches that are mirror images of each other,
there is one definition for both sides. An access through `NULL` stops the
kernel.
-/

import Xlinux.Kernel
import Xlinux.Lib.RedBlack

namespace Xlinux

open RedBlack

/-! ### Nodes -/

/-- `struct rb_node`, with what else is in the structure that it is a member of. -/
structure RbNode (α : Type) where
  rbParentColor : UInt64
  rbRight : UInt64
  rbLeft : UInt64
  entry : α
  deriving DecidableEq, Repr

/-- The nodes by address, and the field of `struct rb_root`. -/
structure RbTree (α : Type) where
  nodes : UInt64 → RbNode α
  rbNode : UInt64

/-- Code that works on a tree and may stop the kernel. -/
abbrev RbM (α : Type) := StateT (RbTree α) Kernel

variable {α : Type}

/-- The field for a child. -/
def RbNode.child (side : Side) (node : RbNode α) : UInt64 :=
  match side with
  | .left => node.rbLeft
  | .right => node.rbRight

def RbNode.setChild (side : Side) (ptr : UInt64) (node : RbNode α) : RbNode α :=
  match side with
  | .left => { node with rbLeft := ptr }
  | .right => { node with rbRight := ptr }

/-- Read a node. -/
def deref (ptr : UInt64) : RbM α (RbNode α) := fun tree =>
  if ptr = 0 then .error .nullPointer else .ok (tree.nodes ptr, tree)

/-- Write to a node. -/
def modifyNode (ptr : UInt64) (change : RbNode α → RbNode α) : RbM α Unit := fun tree =>
  if ptr = 0 then .error .nullPointer
  else .ok ((), { tree with nodes := Function.update tree.nodes ptr (change (tree.nodes ptr)) })

/-- `RB_RED` and `RB_BLACK`. -/
def colorWord : Color → UInt64
  | .red => 0
  | .black => 1

/-- `__rb_parent`. -/
def rbParentOf (pc : UInt64) : UInt64 := pc &&& ~~~3

/-- `__rb_is_black`. -/
def rbIsBlackWord (pc : UInt64) : Bool := pc &&& 1 ≠ 0

/-- `rb_parent`. -/
def rbParent (rb : UInt64) : RbM α UInt64 := do
  return rbParentOf (← deref rb).rbParentColor

/-- `rb_red_parent`: the color bit of a red node is not set. -/
def rbRedParent (red : UInt64) : RbM α UInt64 := do
  return (← deref red).rbParentColor

/-- `rb_is_black`. -/
def rbIsBlack (rb : UInt64) : RbM α Bool := do
  return rbIsBlackWord (← deref rb).rbParentColor

/-- `rb_is_red`. -/
def rbIsRed (rb : UInt64) : RbM α Bool := do
  return !rbIsBlackWord (← deref rb).rbParentColor

/-- `rb_set_black`. -/
def rbSetBlack (rb : UInt64) : RbM α Unit :=
  modifyNode rb fun node =>
    { node with rbParentColor := node.rbParentColor ||| colorWord .black }

/-- `rb_set_parent_color`. -/
def rbSetParentColor (rb p : UInt64) (color : Color) : RbM α Unit :=
  modifyNode rb fun node => { node with rbParentColor := p ||| colorWord color }

/-- `rb_set_parent`. -/
def rbSetParent (rb p : UInt64) : RbM α Unit :=
  modifyNode rb fun node => { node with rbParentColor := (node.rbParentColor &&& 1) ||| p }

/-- `if (rb) rb_set_parent_color(rb, p, color)`. -/
def rbSetParentColorIf (rb p : UInt64) (color : Color) : RbM α Unit :=
  if rb ≠ 0 then rbSetParentColor rb p color else pure ()

/-- `if (rb) rb_set_parent(rb, p)`. -/
def rbSetParentIf (rb p : UInt64) : RbM α Unit :=
  if rb ≠ 0 then rbSetParent rb p else pure ()

/-- `rb->rb_left` or `rb->rb_right`. -/
def rbChild (side : Side) (rb : UInt64) : RbM α UInt64 := do
  return (← deref rb).child side

/-- A write to `rb->rb_left` or `rb->rb_right`. -/
def setRbChild (side : Side) (rb ptr : UInt64) : RbM α Unit :=
  modifyNode rb (RbNode.setChild side ptr)

/-- `__rb_change_child`. -/
def rbChangeChild (old new parent : UInt64) : RbM α Unit := do
  if parent ≠ 0 then
    if (← rbChild .left parent) = old then setRbChild .left parent new
    else setRbChild .right parent new
  else modify fun tree => { tree with rbNode := new }

/-- `__rb_rotate_set_parents`. -/
def rbRotateSetParents (old new : UInt64) (color : Color) : RbM α Unit := do
  let parent ← rbParent old
  let pc := (← deref old).rbParentColor
  modifyNode new fun node => { node with rbParentColor := pc }
  rbSetParentColor old new color
  rbChangeChild old new parent

/-- Where `rb_link_node` stores the address of a node: in the root, or in a node. -/
inductive RbLink
  | root
  | child (parent : UInt64) (side : Side)
  deriving DecidableEq, Repr

/-- A read of the field in which the address of a node is stored. -/
def readRbLink (link : RbLink) : RbM α UInt64 :=
  match link with
  | .root => return (← get).rbNode
  | .child parent side => rbChild side parent

/-- `rb_link_node`. -/
def rbLinkNode (node parent : UInt64) (link : RbLink) : RbM α Unit := do
  modifyNode node fun rb => { rb with rbParentColor := parent, rbRight := 0, rbLeft := 0 }
  match link with
  | .root => modify fun tree => { tree with rbNode := node }
  | .child rb side => setRbChild side rb node

/-! ### Insertion -/

/-- `augment_rotate`: what is called after a rotation, with the old and the new upper node. -/
abbrev AugmentRotate (α : Type) := (old new : UInt64) → RbM α Unit

/-- Case 3 of `__rb_insert`: rotate at the grandparent. -/
def rbInsertRotate (augmentRotate : AugmentRotate α) (side : Side)
    (gparent parent tmp : UInt64) : RbM α Unit := do
  setRbChild side gparent tmp
  setRbChild side.other parent gparent
  rbSetParentColorIf tmp gparent .black
  rbRotateSetParents gparent parent .red
  augmentRotate gparent parent

/-- Case 2 of `__rb_insert`: rotate at the parent. -/
def rbInsertInner (augmentRotate : AugmentRotate α) (side : Side) (parent node : UInt64) :
    RbM α Unit := do
  let tmp ← rbChild side node
  setRbChild side.other parent tmp
  setRbChild side node parent
  rbSetParentColorIf tmp parent .black
  rbSetParentColor parent node .red
  augmentRotate parent node

/-- Cases 2 and 3 of `__rb_insert`. -/
def rbInsertRotations (augmentRotate : AugmentRotate α) (side : Side)
    (node parent gparent : UInt64) : RbM α Unit := do
  let tmp ← rbChild side.other parent
  if node = tmp then
    rbInsertInner augmentRotate side parent node
    let tmp ← rbChild side.other node
    rbInsertRotate augmentRotate side gparent node tmp
  else rbInsertRotate augmentRotate side gparent parent tmp

/-- Case 1 of `__rb_insert`: flip colors. The parent of the grandparent is returned. -/
def rbInsertFlip (tmp parent gparent : UInt64) : RbM α UInt64 := do
  rbSetParentColor tmp gparent .black
  rbSetParentColor parent gparent .black
  let above ← rbParent gparent
  rbSetParentColor gparent above .red
  return above

/-- The loop of `__rb_insert`. -/
def rbInsertLoop (augmentRotate : AugmentRotate α) : Nat → UInt64 → UInt64 → RbM α Unit
  | 0, _, _ => throw .endless
  | turns + 1, node, parent => do
    if parent = 0 then rbSetParentColor node 0 .black
    else if ← rbIsBlack parent then pure ()
    else
      let gparent ← rbRedParent parent
      let tmp ← rbChild .right gparent
      let side := if parent ≠ tmp then Side.left else Side.right
      let tmp ← rbChild side.other gparent
      if ← (if tmp ≠ 0 then rbIsRed tmp else pure false) then
        let above ← rbInsertFlip tmp parent gparent
        rbInsertLoop augmentRotate turns gparent above
      else rbInsertRotations augmentRotate side node parent gparent

/-- `__rb_insert`, and `__rb_insert_augmented`, which calls it. -/
def rbInsert (augmentRotate : AugmentRotate α) (node : UInt64) : RbM α Unit := do
  let parent ← rbRedParent node
  rbInsertLoop augmentRotate maxTurns node parent

/-- `struct rb_augment_callbacks`. -/
structure RbAugmentCallbacks (α : Type) where
  propagate : (node stop : UInt64) → RbM α Unit
  copy : (old new : UInt64) → RbM α Unit
  rotate : AugmentRotate α

/-- `dummy_callbacks`. -/
def dummyCallbacks : RbAugmentCallbacks α where
  propagate _ _ := return
  copy _ _ := return
  rotate _ _ := return

/-- `rb_insert_color`. -/
def rbInsertColor (node : UInt64) : RbM α Unit := rbInsert dummyCallbacks.rotate node

/-! ### Erasing -/

/-- Case 1 of `____rb_erase_color`: rotate the red sibling over the parent. The new sibling is
returned. -/
def rbEraseRotate (augmentRotate : AugmentRotate α) (side : Side) (parent sibling : UInt64) :
    RbM α UInt64 := do
  let tmp1 ← rbChild side sibling
  setRbChild side.other parent tmp1
  setRbChild side sibling parent
  rbSetParentColor tmp1 parent .black
  rbRotateSetParents parent sibling .red
  augmentRotate parent sibling
  return tmp1

/-- Case 3 of `____rb_erase_color`: rotate at the sibling. -/
def rbEraseInner (augmentRotate : AugmentRotate α) (side : Side) (parent sibling tmp2 : UInt64) :
    RbM α Unit := do
  let tmp1 ← rbChild side.other tmp2
  setRbChild side sibling tmp1
  setRbChild side.other tmp2 sibling
  setRbChild side.other parent tmp2
  rbSetParentColorIf tmp1 sibling .black
  augmentRotate sibling tmp2

/-- Case 4 of `____rb_erase_color`: rotate at the parent. -/
def rbEraseOuter (augmentRotate : AugmentRotate α) (side : Side) (parent sibling tmp1 : UInt64) :
    RbM α Unit := do
  let tmp2 ← rbChild side sibling
  setRbChild side.other parent tmp2
  setRbChild side sibling parent
  rbSetParentColor tmp1 sibling .black
  rbSetParentIf tmp2 parent
  rbRotateSetParents parent sibling .black
  augmentRotate parent sibling

/-- `!rb || rb_is_black(rb)`. -/
def rbNullOrBlack (rb : UInt64) : RbM α Bool :=
  if rb = 0 then pure true else rbIsBlack rb

/-- Cases 2, 3 and 4 of `____rb_erase_color`, and whether the loop has to go on above the parent
if there is something above it. -/
def rbEraseBalance (augmentRotate : AugmentRotate α) (side : Side) (parent sibling : UInt64) :
    RbM α Bool := do
  let tmp1 ← rbChild side.other sibling
  if ← rbNullOrBlack tmp1 then
    let tmp2 ← rbChild side sibling
    if ← rbNullOrBlack tmp2 then
      rbSetParentColor sibling parent .red
      if ← rbIsRed parent then
        rbSetBlack parent
        return false
      else return true
    else
      rbEraseInner augmentRotate side parent sibling tmp2
      rbEraseOuter augmentRotate side parent tmp2 sibling
      return false
  else
    rbEraseOuter augmentRotate side parent sibling tmp1
    return false

/-- The loop of `____rb_erase_color`. -/
def rbEraseColorLoop (augmentRotate : AugmentRotate α) : Nat → UInt64 → UInt64 → RbM α Unit
  | 0, _, _ => throw .endless
  | turns + 1, node, parent => do
    let sibling ← rbChild .right parent
    let side := if node ≠ sibling then Side.left else Side.right
    let sibling ← rbChild side.other parent
    let sibling ← (do
      if ← rbIsRed sibling then rbEraseRotate augmentRotate side parent sibling
      else pure sibling)
    if ← rbEraseBalance augmentRotate side parent sibling then
      let above ← rbParent parent
      if above ≠ 0 then rbEraseColorLoop augmentRotate turns parent above

/-- `____rb_erase_color`, and `__rb_erase_color`, which calls it. -/
def rbEraseColor (parent : UInt64) (augmentRotate : AugmentRotate α) : RbM α Unit :=
  rbEraseColorLoop augmentRotate maxTurns 0 parent

/-- The loop down to the successor in `__rb_erase_augmented`: the parent of the successor and the
successor. -/
def rbSuccessorLoop : Nat → UInt64 → UInt64 → RbM α (UInt64 × UInt64)
  | 0, _, _ => throw .endless
  | turns + 1, successor, tmp => do
    let next ← rbChild .left tmp
    if next ≠ 0 then rbSuccessorLoop turns tmp next else return (successor, tmp)

/-- Cases 2 and 3 of `__rb_erase_augmented`, up to where they meet: the values of `parent`,
`successor` and `child2`. -/
def rbEraseSuccessor (augment : RbAugmentCallbacks α) (node child : UInt64) :
    RbM α (UInt64 × UInt64 × UInt64) := do
  let tmp ← rbChild .left child
  if tmp = 0 then
    let child2 ← rbChild .right child
    augment.copy node child
    return (child, child, child2)
  else
    let (parent, successor) ← rbSuccessorLoop maxTurns child tmp
    let child2 ← rbChild .right successor
    setRbChild .left parent child2
    setRbChild .right successor child
    rbSetParent child successor
    augment.copy node successor
    augment.propagate parent successor
    return (parent, successor, child2)

/-- `__rb_erase_augmented`: the node at which the colors have to be repaired, or `NULL`. -/
def rbEraseAugmented (augment : RbAugmentCallbacks α) (node : UInt64) : RbM α UInt64 := do
  let child ← rbChild .right node
  let tmp ← rbChild .left node
  if tmp = 0 then
    let pc := (← deref node).rbParentColor
    rbChangeChild node child (rbParentOf pc)
    if child ≠ 0 then
      modifyNode child fun rb => { rb with rbParentColor := pc }
      augment.propagate (rbParentOf pc) 0
      return 0
    else
      augment.propagate (rbParentOf pc) 0
      return if rbIsBlackWord pc then rbParentOf pc else 0
  else if child = 0 then
    let pc := (← deref node).rbParentColor
    modifyNode tmp fun rb => { rb with rbParentColor := pc }
    rbChangeChild node tmp (rbParentOf pc)
    augment.propagate (rbParentOf pc) 0
    return 0
  else
    let (parent, successor, child2) ← rbEraseSuccessor augment node child
    let tmp ← rbChild .left node
    setRbChild .left successor tmp
    rbSetParent tmp successor
    let pc := (← deref node).rbParentColor
    rbChangeChild node successor (rbParentOf pc)
    let rebalance ← (do
      if child2 ≠ 0 then
        rbSetParentColor child2 parent .black
        pure 0
      else pure (if ← rbIsBlack successor then parent else 0))
    modifyNode successor fun rb => { rb with rbParentColor := pc }
    augment.propagate successor 0
    return rebalance

/-- `rb_erase_augmented`. -/
def rbEraseWith (augment : RbAugmentCallbacks α) (node : UInt64) : RbM α Unit := do
  let rebalance ← rbEraseAugmented augment node
  if rebalance ≠ 0 then rbEraseColor rebalance augment.rotate

/-- `rb_erase`. -/
def rbErase (node : UInt64) : RbM α Unit := rbEraseWith dummyCallbacks node

end Xlinux
