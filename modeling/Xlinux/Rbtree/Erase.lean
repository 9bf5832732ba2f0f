/-
This file follows `rb_erase` through memory. The node is unlinked or its successor
is put in its place; the loop of `____rb_erase_color` then repairs the tree from
the place that is one black node short up.
-/

import Xlinux.Rbtree.Shape
import Xlinux.Lib.RedBlackErase

namespace Xlinux

open RedBlack Cells

variable {α : Type} {tree : RbTree α} {rest : NodeCells α}
  {augment : Augment UInt64 α} {augmentRotate : AugmentRotate α} {frames : List (Frame UInt64 α)}

/-! ### The cases of `____rb_erase_color` -/

section Cases

variable {side : Side} {color : Color} {focus near far : Tree UInt64 α}
  {parent sibling root word upperWord stale nearParent farParent : UInt64} {entry upperEntry : α}

/-- The cells of a place, with the node above it and the sibling by themselves. -/
theorem frameCells_join {parent : Frame UInt64 α}
    (whole : parent.sibling = Tree.join parent.side color near sibling entry far) (hole : UInt64)
    (others : NodeCells α) :
    frameCells 0 (parent :: frames) hole + (others + rest) = frameCells 0 frames parent.label +
        (cell parent.label (rbNodeOf parent.side (packed (parentOf 0 frames) parent.color) hole
            sibling parent.entry) +
          (cell sibling (rbNodeOf parent.side (packed parent.label color) (rootPtr near)
              (rootPtr far) entry) +
            (others + (treeCells sibling near + (treeCells sibling far + rest))))) := by
  rw [frameCells, whole, treeCells_join, rootPtr_join]
  abel

/-- Case 4. -/
theorem Holds.rbEraseOuter (rotates : Rotates augment augmentRotate) (nonempty : far ≠ .leaf)
    (free : nearParent &&& 3 = 0) {farPtr : UInt64} (farRoot : farPtr = rootPtr far)
    (holds : Holds tree (frameCells 0 frames parent +
      (cell parent (rbNodeOf side (packed (parentOf 0 frames) color) (rootPtr focus) stale
          upperEntry) +
        (cell sibling (rbNodeOf side word (rootPtr near) farPtr entry) +
          (treeCells parent focus +
            (treeCells nearParent near + (treeCells farParent far + rest))))))
      (topPtr frames parent)) :
    Returns (rbEraseOuter augmentRotate side parent sibling farPtr) tree () fun after =>
      HoldsAt after frames (Tree.join side color
        (augment.join side .black focus parent upperEntry near) sibling
        (augment.copy upperEntry entry) (far.recolor .black)) rest := by
  subst farRoot
  refine Returns.read (holds.at_third.rbChild side) ?_
  rw [child_rbNodeOf]
  refine ((acts_setRbChild side.other parent _ _).at_second holds).bind fun tree holds => ?_
  refine ((acts_setRbChild side sibling parent _).at_third holds).bind fun tree holds => ?_
  refine ((acts_rbSetParentColor_root nonempty _ sibling .black).at_first holds.sixth).bind
    fun tree holds => ?_
  replace holds := holds.sixth.sixth.sixth.sixth.sixth
  refine ((acts_rbSetParentIf free parent near).at_fifth holds).bind fun tree holds => ?_
  rw [setChild_rbNodeOf, setChild_other_rbNodeOf] at holds
  refine (rotates.hang .black rfl rfl holds).mono fun after holds => ?_
  rw [HoldsAt, rootPtr_join, treeCells_join, rootPtr_augment_join, rootPtr_recolor]
  exact holds.of_eq (by simp only [add_assoc])

/-- Case 3. The sibling is below the node that goes up. -/
theorem Holds.rbEraseInner (rotates : Rotates augment augmentRotate) {node : UInt64}
    {hole nodeWord : UInt64} {nodeEntry : α} {inner outer : Tree UInt64 α}
    {first second : NodeCells α}
    (holds : Holds tree (first + (cell parent (rbNodeOf side upperWord hole sibling upperEntry) +
        (cell sibling (rbNodeOf side (packed parent color) node (rootPtr far) entry) + (second +
          (cell node (rbNodeOf side nodeWord (rootPtr inner) (rootPtr outer) nodeEntry) +
            (treeCells node inner + (treeCells node outer + (treeCells sibling far + rest))))))))
      root) :
    Returns (rbEraseInner augmentRotate side parent sibling node) tree () fun after =>
      Holds after (first + (cell parent (rbNodeOf side upperWord hole node upperEntry) +
          (cell node (rbNodeOf side nodeWord (rootPtr inner) sibling
              (augment.copy entry nodeEntry)) + (second + (treeCells node inner +
            (treeCells parent (augment.join side color (outer.recolor .black) sibling entry far) +
              rest)))))) root := by
  have turn : Holds tree
      (cell sibling (rbNodeOf side (packed parent color) node (rootPtr far) entry) +
        (cell node (rbNodeOf side nodeWord (rootPtr inner) (rootPtr outer) nodeEntry) +
          (treeCells node outer + (treeCells sibling far +
            (cell parent (rbNodeOf side upperWord hole sibling upperEntry) +
              (first + (second + (treeCells node inner + rest)))))))) root := holds.of_eq (by abel)
  refine Returns.read (turn.at_second.rbChild side.other) ?_
  rw [child_other_rbNodeOf]
  refine ((acts_setRbChild side sibling _ _).at_first turn).bind fun tree holds => ?_
  refine ((acts_setRbChild side.other node sibling _).at_second holds).bind fun tree holds => ?_
  refine ((acts_setRbChild side.other parent node _).at_fifth holds).bind fun tree holds => ?_
  refine ((acts_rbSetParentColorIf _ sibling outer).at_third holds).bind fun tree holds => ?_
  simp only [setChild_rbNodeOf, setChild_other_rbNodeOf] at holds
  refine (rotates.join rootPtr_recolor.symm rfl holds).mono fun after holds => ?_
  exact holds.of_eq (by abel)

/-- Case 1. The new sibling is the near child of the old one, and the parent is red now. -/
theorem Holds.rbEraseRotate (rotates : Rotates augment augmentRotate) {parent : Frame UInt64 α}
    (nonempty : near ≠ .leaf)
    (whole : parent.sibling = Tree.join parent.side color near sibling entry far)
    (holds : HoldsAt tree (parent :: frames) focus rest) :
    Returns (rbEraseRotate augmentRotate parent.side parent.label sibling) tree (rootPtr near)
      fun after => Holds after
        (frameCells 0 (eraseRotate augment parent focus ++ frames) (rootPtr focus) +
          (treeCells parent.label focus + rest)) (topPtr frames sibling) := by
  rw [eraseRotate_join whole]
  rw [HoldsAt, frameCells_join whole] at holds
  refine Returns.read (holds.at_third.rbChild parent.side) ?_
  rw [child_rbNodeOf]
  refine ((acts_setRbChild parent.side.other parent.label _ _).at_second holds).bind
    fun tree holds => ?_
  refine ((acts_setRbChild parent.side sibling parent.label _).at_third holds).bind
    fun tree holds => ?_
  refine ((acts_rbSetParentColor_root nonempty _ parent.label .black).at_fifth holds).bind
    fun tree holds => ?_
  rw [setChild_rbNodeOf, setChild_other_rbNodeOf] at holds
  refine (holds.rbRotateSetParents rbParentColor_rbNodeOf .red).bind fun tree holds => ?_
  simp only [with_rbParentColor_rbNodeOf, rbParentColor_rbNodeOf] at holds
  refine (rotates.join rfl rootPtr_recolor.symm holds.fifth.fifth.fifth.fifth).bind
    fun after holds => Returns.pure ?_
  rw [Augment.join, treeCells_join, rootPtr_recolor] at holds
  rw [List.cons_append, List.cons_append, List.nil_append, frameCells, frameCells, parentOf,
    rootPtr_recolor]
  exact holds.of_eq (by abel)

end Cases

section Loop

variable {focus near far : Tree UInt64 α} {parent : Frame UInt64 α} {sibling : UInt64} {entry : α}

section

variable (holds : HoldsAt tree (parent :: frames) focus rest)

include holds

/-- Case 2: the sibling becomes red. -/
theorem Holds.rbEraseFlip
    (whole : parent.sibling = Tree.join parent.side .black near sibling entry far) :
    Returns (do
      rbSetParentColor sibling parent.label .red
      if ← rbIsRed parent.label then
        rbSetBlack parent.label
        return false
      else return true) tree (decide (parent.color = .black)) fun after =>
      HoldsAt after frames (Tree.join parent.side .black focus parent.label parent.entry
        (parent.sibling.recolor .red)) rest := by
  have free := holds.free_above
  simp only [HoldsAt, rootPtr_join]
  rw [whole, Tree.recolor_join, treeCells_join, treeCells_join, rootPtr_join]
  rw [HoldsAt, parentOf, frameCells_join whole] at holds
  refine ((acts_rbSetParentColor sibling parent.label .red _).at_third holds).bind
    fun tree holds => ?_
  rw [with_rbParentColor_rbNodeOf] at holds
  refine Returns.read holds.at_second.rbIsRed ?_
  rw [rbParentColor_rbNodeOf, rbIsBlackWord_packed free]
  cases color : parent.color with
  | black =>
    rw [color] at holds
    exact Returns.pure (holds.of_eq (by abel))
  | red =>
    refine ((acts_modifyNode parent.label _ _).at_second holds).bind fun tree holds =>
      Returns.pure ?_
    simp only [with_rbParentColor_rbNodeOf, rbParentColor_rbNodeOf, packed_or_black] at holds
    exact holds.of_eq (by abel)

/-- Cases 2, 3 and 4. -/
theorem Holds.rbEraseBalance (rotates : Rotates augment augmentRotate)
    (nonempty : parent.sibling ≠ .leaf) (black : parent.sibling.isRed = false) :
    Returns (rbEraseBalance augmentRotate parent.side parent.label (rootPtr parent.sibling)) tree
      (eraseBalance augment parent focus).2 fun after =>
        HoldsAt after frames (eraseBalance augment parent focus).1 rest := by
  obtain ⟨color, near, sibling, entry, far, whole⟩ :=
    Tree.exists_join_of_ne_leaf parent.side nonempty
  obtain rfl : color = .black := by
    rw [whole] at black
    cases color with
    | red => simp at black
    | black => rfl
  have cells := holds
  rw [HoldsAt, frameCells_join whole] at cells
  rw [whole, rootPtr_join]
  refine Returns.read (cells.at_third.rbChild parent.side.other) ?_
  rw [child_other_rbNodeOf]
  have free : sibling &&& 3 = 0 := cells.at_third.free
  refine Returns.read (cells.sixth.rbNullOrBlack_root free) ?_
  cases farRed : far.isRed with
  | true =>
    rw [eraseBalance_far whole farRed]
    exact (cells.rbEraseOuter rotates (Tree.ne_leaf_of_isRed farRed) free rfl).bind
      fun after holds => Returns.pure holds
  | false =>
    refine Returns.read (cells.at_third.rbChild parent.side) ?_
    rw [child_rbNodeOf]
    refine Returns.read (cells.fifth.rbNullOrBlack_root free) ?_
    cases nearRed : near.isRed with
    | false =>
      rw [eraseBalance_flip whole nearRed farRed]
      exact holds.rbEraseFlip whole
    | true =>
      obtain ⟨_, node, _, outer, rfl⟩ := Tree.exists_red_join parent.side nearRed
      rw [eraseBalance_near whole farRed, rootPtr_join]
      rw [treeCells_join, rootPtr_join, add_assoc, add_assoc] at cells
      have nodeFree : node &&& 3 = 0 := cells.fifth.at_first.free
      refine (cells.rbEraseInner rotates).bind fun tree holds => ?_
      -- the old sibling is a subtree now, to which the parent is still the parent
      have same : (augment.join parent.side .black (outer.recolor .black) sibling entry far).recolor
        .black = augment.join parent.side .black (outer.recolor .black) sibling entry far :=
        Tree.recolor_join
      refine (holds.rbEraseOuter rotates Tree.join_ne_leaf nodeFree rootPtr_augment_join.symm).bind
        fun after holds => Returns.pure ?_
      rw [← same]
      exact holds

end

/-- The loop repairs the tree from a place that is one black node short up. -/
theorem Holds.rbEraseColorLoop (rotates : Rotates augment augmentRotate) {height turns : Nat}
    (path : Path frames (height + 1)) (nonempty : frames ≠ []) (enough : frames.length ≤ turns)
    (holds : HoldsAt tree frames focus rest) :
    Returns (rbEraseColorLoop augmentRotate turns (rootPtr focus) (parentOf 0 frames)) tree ()
      fun after => HoldsTree after (eraseFix augment frames focus) rest := by
  induction turns generalizing frames focus height tree with
  | zero => exact absurd (List.length_eq_zero_iff.mp (Nat.le_zero.mp enough)) nonempty
  | succ turns ih =>
    cases frames with
    | nil => exact absurd rfl nonempty
    | cons parent above =>
      obtain ⟨_, siblingTall, _, path⟩ := path
      have present := Tree.ne_leaf_of_height siblingTall
      have cells := holds
      rw [HoldsAt, frameCells, add_assoc, add_assoc] at cells
      rw [parentOf]
      refine Returns.read (cells.at_first.rbChild .right) ?_
      simp only [side_eq (cells.second.fourth.rootPtr_ne_rootPtr present).symm]
      refine Returns.read (cells.at_first.rbChild parent.side.other) ?_
      rw [child_other_rbNodeOf]
      obtain ⟨node, found, isBlack⟩ := cells.second.rbIsBlackWord_root cells.at_first.free present
      have isRed := found.rbIsRed
      rw [isBlack] at isRed
      cases red : parent.sibling.isRed with
      | true =>
        rw [red] at isRed
        obtain ⟨near, label, entry, far, whole⟩ := Tree.exists_red_join parent.side red
        rw [whole] at siblingTall
        obtain ⟨_, rfl, nearTall, _⟩ := Tree.height_join.mp siblingTall
        have rotated := holds.rbEraseRotate rotates (Tree.ne_leaf_of_height nearTall) whole
        rw [whole, rootPtr_join] at isRed ⊢
        refine (Returns.read isRed rotated).bind fun tree holds => ?_
        rw [eraseFix, whole, if_pos (by simp), eraseRotate_join whole]
        rw [eraseRotate_join whole] at holds
        let lower : Frame UInt64 α := ⟨parent.side, .red, parent.label,
          augment.computeAt parent.side focus parent.label parent.entry (near.recolor .black),
          near.recolor .black⟩
        let upper : Frame UInt64 α :=
          ⟨parent.side, parent.color, label, augment.copy parent.entry entry, far⟩
        have balanced := holds.rbEraseBalance rotates
          (Tree.recolor_ne_leaf (Tree.ne_leaf_of_height nearTall)) (Tree.isRed_recolor_black near)
        -- the parent is red now, so that the loop ends there
        have ends : (eraseBalance augment lower focus).2 = false :=
          Bool.eq_false_iff.mpr fun again => Color.noConfusion (eraseBalance_again again).1
        rw [ends, show rootPtr lower.sibling = rootPtr near from rootPtr_recolor] at balanced
        refine balanced.bind fun after holds => ?_
        exact Returns.pure (@holdsTree_fill _ _ _ (upper :: above) _ |>.mpr holds)
      | false =>
        rw [red] at isRed
        have stays : Returns (pure (rootPtr parent.sibling)) tree (rootPtr parent.sibling)
          fun after => after = tree := Returns.pure rfl
        refine (Returns.read isRed stays).bind fun _ same => same ▸ ?_
        refine (holds.rbEraseBalance rotates present red).bind fun tree holds => ?_
        rw [eraseFix, red]
        cases again : (eraseBalance augment parent focus).2 with
        | false =>
          exact Returns.pure (holdsTree_fill.mpr holds)
        | true =>
          obtain ⟨black, repaired⟩ := eraseBalance_again again
          rw [black] at path
          generalize (eraseBalance augment parent focus).1 = next at holds repaired
          have label : rootPtr next = parent.label := repaired ▸ rootPtr_join
          have up : rbParent parent.label tree = .ok (parentOf 0 above, tree) := by
            have free := holds.free_parentOf
            rw [repaired, HoldsAt, treeCells_join, add_assoc] at holds
            rw [holds.at_second.rbParent, rbParentColor_rbNodeOf, rbParentOf_packed free]
          refine Returns.read up ?_
          cases above with
          | nil =>
            rw [HoldsAt, frameCells, zero_add] at holds
            exact Returns.pure holds
          | cons gparent above =>
            have present : gparent.label ≠ 0 := by
              rw [HoldsAt, frameCells, add_assoc] at holds
              exact holds.at_first.ne
            rw [parentOf, if_pos present, ← label]
            exact ih path (List.cons_ne_nil _ _) (Nat.le_of_succ_le_succ enough) holds

end Loop

/-! ### The way to the successor -/

section Successor

variable {color : Color} {parent root : UInt64} {entry : α} {left right : Tree UInt64 α}

/-- The loop walks down to the leftmost node. -/
theorem Holds.rbSuccessorLoop {label above : UInt64} {turns : Nat}
    (enough : left.inorder.length < turns)
    (holds : Holds tree (treeCells parent (.node color left label entry right) + rest) root) :
    Xlinux.rbSuccessorLoop turns (parentOf above frames) label tree =
      .ok ((parentOf above (spine frames color label entry right left).frames,
        (spine frames color label entry right left).label), tree) := by
  induction turns generalizing frames color left label entry right parent rest with
  | zero => cases enough
  | succ turns ih =>
    rw [treeCells, add_assoc, add_assoc] at holds
    have read := holds.at_first.rbChild .left
    show (rbChild .left label tree >>= _) = _
    rw [read]
    cases left with
    | leaf => rfl
    | node nextColor next nextLabel nextEntry nextRight =>
      show (if nextLabel ≠ 0 then rbSuccessorLoop turns label nextLabel else _) tree = _
      have below := holds.second
      have present : nextLabel ≠ 0 := below.rootPtr_ne_zero (by simp)
      have shorter : next.inorder.length < turns := by
        simp only [Tree.inorder, List.length_append, List.length_cons] at enough
        omega
      rw [if_pos present]
      show rbSuccessorLoop turns (parentOf above (⟨.left, color, label, entry, right⟩ :: frames))
        nextLabel tree = _
      exact ih shorter below

/-- A write to the field in which the node at a place hangs. -/
theorem acts_setRbChild_hole (frame : Frame UInt64 α) (frames : List (Frame UInt64 α))
    (above hole next : UInt64) :
    Acts (setRbChild frame.side frame.label next) (frameCells above (frame :: frames) hole)
      (frameCells above (frame :: frames) next) := by
  intro tree rest root holds
  rw [frameCells, add_assoc] at holds ⊢
  have written := (acts_setRbChild frame.side frame.label next _).at_first holds
  rw [setChild_rbNodeOf] at written
  exact written

end Successor

end Xlinux
