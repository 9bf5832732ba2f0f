/-
This file follows `rb_insert_color` through memory. Every case of the loop turns
the cells of a place with a red node into those of the repaired tree; the loop
itself is the repair of the tree from the place up.
-/

import Xlinux.Rbtree.Shape

namespace Xlinux

open RedBlack Cells

variable {α : Type} {tree : RbTree α} {rest : NodeCells α}
  {augment : Augment UInt64 α} {augmentRotate : AugmentRotate α} {frames : List (Frame UInt64 α)}

/-- Case 3. The node that goes up may come from below its parent, so that its word and the link of
its grandparent are not yet right. -/
theorem Holds.rbInsertRotate (rotates : Rotates augment augmentRotate) {side : Side}
    {gparent parent word stale near subParent : UInt64} {color : Color} {entry upperEntry : α}
    {tmp uncle : Tree UInt64 α}
    (holds : Holds tree (frameCells 0 frames gparent +
      (cell gparent (rbNodeOf side (packed (parentOf 0 frames) color) stale (rootPtr uncle)
          upperEntry) +
        (cell parent (rbNodeOf side word near (rootPtr tmp) entry) +
          (treeCells subParent tmp + (treeCells gparent uncle + rest))))) (topPtr frames gparent)) :
    Returns (rbInsertRotate augmentRotate side gparent parent (rootPtr tmp)) tree () fun after =>
      Holds after (frameCells 0 frames parent +
        (cell parent (rbNodeOf side (packed (parentOf 0 frames) color) near gparent
            (augment.copy upperEntry entry)) +
          (treeCells parent (augment.join side .red (tmp.recolor .black) gparent upperEntry uncle) +
            rest))) (topPtr frames parent) := by
  refine ((acts_setRbChild side gparent _ _).at_second holds).bind fun tree holds => ?_
  refine ((acts_setRbChild side.other parent gparent _).at_third holds).bind fun tree holds => ?_
  refine ((acts_rbSetParentColorIf _ gparent tmp).at_fourth holds).bind fun tree holds => ?_
  rw [setChild_rbNodeOf, setChild_other_rbNodeOf] at holds
  exact rotates.hang .red rootPtr_recolor.symm rfl holds

/-- Case 2. -/
theorem Holds.rbInsertInner (rotates : Rotates augment augmentRotate) {side : Side}
    {parent node word upperWord farParent root : UInt64} {entry upperEntry : α}
    {sibling near far : Tree UInt64 α} {first second third : NodeCells α}
    (holds : Holds tree (first + (second +
      (cell parent (rbNodeOf side upperWord (rootPtr sibling) node upperEntry) +
        (treeCells parent sibling + (third +
          (cell node (rbNodeOf side word (rootPtr near) (rootPtr far) entry) +
            (treeCells node near + (treeCells farParent far + rest)))))))) root) :
    Returns (rbInsertInner augmentRotate side parent node) tree () fun after =>
      Holds after (first + (second +
        (cell node (rbNodeOf side word parent (rootPtr far) (augment.copy upperEntry entry)) +
          (treeCells farParent far + (third +
            (treeCells node
              (augment.join side .red sibling parent upperEntry (near.recolor .black)) +
              rest)))))) root := by
  have turn : Holds tree (cell parent (rbNodeOf side upperWord (rootPtr sibling) node upperEntry) +
        (cell node (rbNodeOf side word (rootPtr near) (rootPtr far) entry) +
          (treeCells parent sibling + (treeCells node near +
            (first + (second + (treeCells farParent far + (third + rest)))))))) root :=
    holds.of_eq (by abel)
  refine Returns.read (turn.at_second.rbChild side) ?_
  rw [child_rbNodeOf]
  refine ((acts_setRbChild side.other parent _ _).at_first turn).bind fun tree holds => ?_
  refine ((acts_setRbChild side node parent _).at_second holds).bind fun tree holds => ?_
  refine ((acts_rbSetParentColorIf _ parent near).at_fourth holds).bind fun tree holds => ?_
  refine ((acts_rbSetParentColor parent node .red _).at_first holds).bind fun tree holds => ?_
  simp only [setChild_rbNodeOf, setChild_other_rbNodeOf, with_rbParentColor_rbNodeOf] at holds
  refine (rotates.join rfl rootPtr_recolor.symm holds).mono fun after holds => ?_
  exact holds.of_eq (by abel)

section Loop

variable {focus : Tree UInt64 α} {gparent parent : Frame UInt64 α}

/-- The cells of a place, with the two nodes above it by themselves. -/
theorem frameCells_two (hole : UInt64) (rest : NodeCells α) :
    frameCells 0 (parent :: gparent :: frames) hole + rest = frameCells 0 frames gparent.label +
        (cell gparent.label (rbNodeOf gparent.side (packed (parentOf 0 frames) gparent.color)
            parent.label (rootPtr gparent.sibling) gparent.entry) +
          (cell parent.label (rbNodeOf parent.side (packed gparent.label parent.color) hole
              (rootPtr parent.sibling) parent.entry) +
            (treeCells parent.label parent.sibling + (treeCells gparent.label gparent.sibling +
              rest)))) := by
  rw [frameCells, frameCells, parentOf]
  abel

/-- Case 1. -/
theorem Holds.rbInsertFlip (uncleRed : gparent.sibling.isRed = true)
    (holds : HoldsAt tree (parent :: gparent :: frames) focus rest) :
    Returns (rbInsertFlip (rootPtr gparent.sibling) parent.label gparent.label) tree
      (parentOf 0 frames) fun after =>
        HoldsAt after frames (Tree.join gparent.side .red
          (Tree.join parent.side .black focus parent.label parent.entry parent.sibling)
          gparent.label gparent.entry (gparent.sibling.recolor .black)) rest := by
  rw [HoldsAt, parentOf, frameCells_two] at holds
  have free := holds.free_parentOf
  refine ((acts_rbSetParentColor_root (Tree.ne_leaf_of_isRed uncleRed) _ gparent.label
    .black).at_fifth holds).bind fun tree holds => ?_
  refine ((acts_rbSetParentColor parent.label gparent.label .black _).at_third holds).bind
    fun tree holds => ?_
  refine Returns.read holds.at_second.rbParent ?_
  rw [rbParentColor_rbNodeOf, rbParentOf_packed free]
  refine ((acts_rbSetParentColor gparent.label _ .red _).at_second holds).bind fun tree holds => ?_
  refine Returns.pure ?_
  simp only [with_rbParentColor_rbNodeOf] at holds
  rw [HoldsAt, treeCells_join, treeCells_join, rootPtr_join, rootPtr_join, rootPtr_recolor]
  exact holds.of_eq (by abel)

/-- Cases 2 and 3. -/
theorem Holds.rbInsertRotations (rotates : Rotates augment augmentRotate) (red : focus.isRed = true)
    (holds : HoldsAt tree (parent :: gparent :: frames) focus rest) :
    Returns (rbInsertRotations augmentRotate gparent.side (rootPtr focus) parent.label
      gparent.label) tree () fun after =>
        HoldsTree after (fill frames (insertRotate augment gparent parent focus)) rest := by
  rw [HoldsAt, parentOf, frameCells_two] at holds
  refine Returns.read (holds.at_third.rbChild gparent.side.other) ?_
  by_cases same : parent.side = gparent.side
  · have other : rootPtr focus ≠ rootPtr parent.sibling :=
      (holds.sixth.fifth.rootPtr_ne_rootPtr (Tree.ne_leaf_of_isRed red)).symm
    rw [insertRotate_outer same]
    rw [same] at holds ⊢
    rw [child_other_rbNodeOf, if_neg other]
    refine (holds.rbInsertRotate rotates).mono fun after holds => holdsTree_fill.mpr ?_
    rw [HoldsAt, rootPtr_join, treeCells_join, rootPtr_augment_join]
    exact holds.of_eq (by abel)
  · obtain ⟨_, label, _, _, rfl⟩ := Tree.exists_red_join gparent.side red
    rw [Side.eq_other_of_ne same, rbNodeOf_other, rootPtr_join, treeCells_join, add_assoc,
      add_assoc] at holds
    rw [Side.eq_other_of_ne same, rbNodeOf_other, child_other_rbNodeOf, rootPtr_join, if_pos rfl,
      insertRotate_inner same]
    refine (holds.rbInsertInner rotates).bind fun tree holds => ?_
    refine Returns.read (holds.at_third.rbChild gparent.side.other) ?_
    rw [child_other_rbNodeOf]
    refine (holds.rbInsertRotate rotates).mono fun after holds => holdsTree_fill.mpr ?_
    rw [HoldsAt, rootPtr_join, treeCells_join]
    refine holds.of_eq ?_
    rw [rootPtr_augment_join, rootPtr_augment_join]
    abel

/-- The loop repairs the tree from the place of a red node up. -/
theorem Holds.rbInsertLoop (rotates : Rotates augment augmentRotate) {height turns : Nat}
    (red : focus.isRed = true) (path : Path frames height) (enough : frames.length < turns)
    (holds : HoldsAt tree frames focus rest) :
    Returns (rbInsertLoop augmentRotate turns (rootPtr focus) (parentOf 0 frames)) tree ()
      fun after => HoldsTree after (insertFix augment frames focus) rest := by
  induction turns generalizing frames focus height tree with
  | zero => cases enough
  | succ turns ih =>
    rw [rbInsertLoop]
    cases frames with
    | nil =>
      rw [parentOf, insertFix]
      rw [HoldsAt, frameCells, zero_add] at holds
      refine ((acts_rbSetParentColor_root (Tree.ne_leaf_of_isRed red) _ 0 .black).at_first
        holds).mono fun after holds => ?_
      rwa [HoldsTree, rootPtr_recolor]
    | cons parent above =>
      have place := holds
      rw [HoldsAt, frameCells, add_assoc] at place
      have free := holds.free_above
      rw [parentOf, if_neg place.at_first.ne]
      refine Returns.read place.at_first.rbIsBlack ?_
      rw [rbParentColor_rbNodeOf, rbIsBlackWord_packed free]
      by_cases black : parent.color = .black
      · have whole : insertFix augment (parent :: above) focus = fill (parent :: above) focus := by
          cases above with
          | nil => rfl
          | cons => rw [insertFix, if_pos black]
        rw [if_pos (decide_eq_true black), whole]
        exact Returns.pure (holdsTree_fill.mpr holds)
      · rw [if_neg (by simpa using black)]
        cases above with
        | nil => exact absurd (path.2.2.1 (by cases color : parent.color <;> simp_all)).2 id
        | cons gparent above =>
          have parentRed : parent.color = .red := by
            cases color : parent.color with
            | red => rfl
            | black => exact absurd color black
          obtain ⟨_, _, _, _, path⟩ := path.above_red black
          have cells := holds
          rw [HoldsAt, frameCells_two] at cells
          refine Returns.read cells.at_third.rbRedParent ?_
          rw [rbParentColor_rbNodeOf, parentRed, packed_red]
          refine Returns.read (cells.at_second.rbChild .right) ?_
          simp only [side_eq cells.third.fifth.rootPtr_ne]
          refine Returns.read (cells.at_second.rbChild gparent.side.other) ?_
          rw [child_other_rbNodeOf]
          refine Returns.read (cells.fifth.rbIsRed_root cells.at_second.free) ?_
          by_cases uncleRed : gparent.sibling.isRed = true
          · rw [if_pos uncleRed, insertFix, if_neg black, if_pos uncleRed]
            refine (holds.rbInsertFlip uncleRed).bind fun tree flipped => ?_
            generalize focusEq : Tree.join gparent.side .red
              (Tree.join parent.side .black focus parent.label parent.entry parent.sibling)
              gparent.label gparent.entry (gparent.sibling.recolor .black) = next at flipped ⊢
            have label : rootPtr next = gparent.label := focusEq ▸ rootPtr_join
            rw [← label]
            refine ih (focusEq ▸ Tree.isRed_join) path ?_ flipped
            simp only [List.length_cons] at enough
            omega
          · rw [if_neg uncleRed, insertFix, if_neg black, if_neg uncleRed]
            exact holds.rbInsertRotations rotates red

end Loop

end Xlinux
