/-
This file follows `__rb_erase_augmented` through memory: a node with at most one
child leaves its place to the child, and one with two children leaves it to its
successor, which is unlinked from where it was. What the callbacks have to do to
the entries of the nodes is said here for all of them.
-/

import Xlinux.Rbtree.Erase

namespace Xlinux

open RedBlack Cells

variable {α : Type} [DecidableEq α]

/-! ### Callbacks -/

/-- `propagate` computes the entries on the way from a place up again, as far as needed. The way
ends below a given node, or at the root. -/
def Propagates (augment : Augment UInt64 α) (propagate : UInt64 → UInt64 → RbM α Unit) : Prop :=
  ∀ tree rest root above (frames : List (Frame UInt64 α)) focus parent, above &&& 3 = 0 →
    (∀ frame ∈ frames, frame.label ≠ above) →
    Holds tree (frameCells above frames (rootPtr focus) + (treeCells parent focus + rest)) root →
    Returns (propagate (parentOf above frames) above) tree () fun after =>
      Holds after (frameCells above (RedBlack.propagate augment frames focus) (rootPtr focus) +
        (treeCells parent focus + rest)) root

/-- The callbacks do to the entries of the nodes what has to be done. -/
structure Lawful (augment : Augment UInt64 α) (callbacks : RbAugmentCallbacks α) : Prop where
  propagate : Propagates augment callbacks.propagate
  copy : ∀ old new (upper lower : RbNode α),
    Acts (callbacks.copy old new) (cell old upper + cell new lower)
      (cell old upper + cell new { lower with entry := augment.copy upper.entry lower.entry })
  rotate : Rotates augment callbacks.rotate

theorem propagate_none (frames : List (Frame UInt64 α)) (focus : Tree UInt64 α) :
    RedBlack.propagate (Augment.none UInt64 α) frames focus = frames := by
  cases frames with
  | nil => rfl
  | cons frame rest =>
    have same :
        (Augment.none UInt64 α).computeAt frame.side focus frame.label frame.entry frame.sibling =
        frame.entry := by
      cases frame.side <;> rfl
    rw [propagate, if_pos same]

theorem lawful_dummy : Lawful (Augment.none UInt64 α) dummyCallbacks where
  propagate tree rest root above frames focus parent _ _ holds := by
    rw [propagate_none]
    exact Returns.pure holds
  copy old new upper lower tree rest root holds := Returns.pure holds
  rotate := rotates_dummy

section Place

variable {augment : Augment UInt64 α} {frames : List (Frame UInt64 α)} {focus : Tree UInt64 α}

theorem parentOf_propagate {above : UInt64} :
    parentOf above (RedBlack.propagate augment frames focus) = parentOf above frames := by
  cases frames with
  | nil => rfl
  | cons frame rest =>
    rw [propagate]
    split <;> rfl

theorem topPtr_propagate {hole : UInt64} :
    topPtr (RedBlack.propagate augment frames focus) hole = topPtr frames hole := by
  induction frames generalizing focus hole with
  | nil => rfl
  | cons frame rest ih =>
    rw [propagate]
    split
    · rfl
    · exact ih

end Place

variable {tree : RbTree α} {rest : NodeCells α} {augment : Augment UInt64 α}
  {callbacks : RbAugmentCallbacks α} {frames : List (Frame UInt64 α)}
  {color : Color} {node : UInt64} {entry : α} {left right : Tree UInt64 α}
  (lawful : Lawful augment callbacks)

include lawful in
/-- `propagate` up to the root. -/
theorem Lawful.propagate_root {focus : Tree UInt64 α}
    {parent root hole : UInt64} (here : hole = rootPtr focus)
    (holds : Holds tree (frameCells 0 frames hole + (treeCells parent focus + rest)) root) :
    Returns (callbacks.propagate (parentOf 0 frames) 0) tree () fun after =>
      Holds after (frameCells 0 (RedBlack.propagate augment frames focus) hole +
        (treeCells parent focus + rest)) root := by
  subst here
  exact lawful.propagate tree rest root 0 frames focus parent UInt64.zero_and
    holds.label_ne_zero holds

/-! ### A node with at most one child -/

section Single

variable {child : Tree UInt64 α}

/-- What `__rb_erase_augmented` leaves: the tree around the place and the subtree there, and beside
them the node. -/
def UnlinkedAt (unlinked : Unlinked UInt64 α) (rest : NodeCells α) (after : RbTree α) : Prop :=
  Holds after (frameCells 0 unlinked.frames (rootPtr unlinked.child) +
    (treeCells (parentOf 0 unlinked.frames) unlinked.child + rest))
    (topPtr unlinked.frames (rootPtr unlinked.child))

/-- The value that `__rb_erase_augmented` returns. -/
def rebalanceAt (unlinked : Unlinked UInt64 α) : UInt64 :=
  if unlinked.short then parentOf 0 unlinked.frames else 0

/-- A node that is erased, as it stands in memory. -/
def erased (frames : List (Frame UInt64 α)) (color : Color) (left : Tree UInt64 α) (entry : α)
    (right : Tree UInt64 α) : RbNode α :=
  ⟨packed (parentOf 0 frames) color, rootPtr right, rootPtr left, entry⟩

omit [DecidableEq α] in
theorem child_erased (side : Side) (left right : Tree UInt64 α) :
    (erased frames color left entry right).child side =
      match side with
      | .left => rootPtr left
      | .right => rootPtr right := by
  cases side <;> rfl

/-- `__rb_erase_augmented` unlinks a node from the tree around it. -/
def Unlinks (augment : Augment UInt64 α) (callbacks : RbAugmentCallbacks α)
    (frames : List (Frame UInt64 α)) (color : Color) (left : Tree UInt64 α) (node : UInt64)
    (entry : α)
    (right : Tree UInt64 α) : Prop :=
  ∀ tree rest,
    Holds tree (frameCells 0 frames node + (cell node (erased frames color left entry right) +
      (treeCells node left + (treeCells node right + rest)))) (topPtr frames node) →
    Returns (rbEraseAugmented callbacks node) tree
      (rebalanceAt (unlink augment frames color left entry right))
      (UnlinkedAt (unlink augment frames color left entry right)
        (cell node (erased frames color left entry right) + rest))

include lawful

/-- The only child gets the place and the color of the node. -/
theorem Lawful.lift {unlinked : Unlinked UInt64 α}
    {record : RbNode α}
    (whole : unlinked = ⟨RedBlack.propagate augment frames (child.recolor color),
      false, child.recolor color⟩)
    (holds : Holds tree (frameCells 0 frames (rootPtr child) + (cell node record +
      (treeCells (parentOf 0 frames) (child.recolor color) + rest)))
        (topPtr frames (rootPtr child))) :
    Returns (do
      callbacks.propagate (parentOf 0 frames) 0
      return 0) tree (rebalanceAt unlinked) (UnlinkedAt unlinked (cell node record + rest)) := by
  refine (lawful.propagate_root rootPtr_recolor.symm holds.third.second).bind fun after holds => ?_
  subst whole
  refine Returns.pure ?_
  rw [UnlinkedAt, topPtr_propagate, parentOf_propagate, rootPtr_recolor]
  exact holds

/-- No left child. -/
theorem Lawful.unlink_right :
    Unlinks augment callbacks frames color .leaf node entry child := by
  intro tree rest place
  rw [show treeCells node .leaf = 0 from rfl, zero_add] at place
  have free := place.free_parentOf
  have found := place.at_second
  refine Returns.read (found.rbChild .right) ?_
  refine Returns.read (found.rbChild .left) ?_
  rw [child_erased, child_erased]
  refine Returns.read found.deref ?_
  simp only [erased, rbParentOf_packed free, rbIsBlackWord_packed free]
  refine place.rbChangeChild.bind fun tree holds => ?_
  by_cases empty : child = .leaf
  · subst empty
    refine (lawful.propagate_root rfl holds.third.second).bind fun after holds => ?_
    have value : rebalanceAt (unlink augment frames color .leaf entry .leaf) =
        if decide (color = .black) = true then parentOf 0 frames else 0 := by
      rw [rebalanceAt, unlink, parentOf_propagate]
    rw [value]
    refine Returns.pure ?_
    rw [UnlinkedAt, unlink, topPtr_propagate]
    exact holds
  · rw [if_pos (holds.third.rootPtr_ne_zero empty)]
    refine ((acts_rbSetParentColor_root empty node (parentOf 0 frames) color).at_third holds).bind
      fun tree => lawful.lift ?_
    cases child with
    | leaf => exact absurd rfl empty
    | node => rfl

/-- No right child. -/
theorem Lawful.unlink_left (nonempty : child ≠ .leaf) :
    Unlinks augment callbacks frames color child node entry .leaf := by
  intro tree rest place
  rw [show treeCells node .leaf = 0 from rfl, zero_add] at place
  have free := place.free_parentOf
  have found := place.at_second
  refine Returns.read (found.rbChild .right) ?_
  refine Returns.read (found.rbChild .left) ?_
  rw [child_erased, child_erased, if_neg (place.third.rootPtr_ne_zero nonempty)]
  refine Returns.read found.deref ?_
  simp only [erased, rbParentOf_packed free]
  refine ((acts_rbSetParentColor_root nonempty node (parentOf 0 frames) color).at_third place).bind
    fun tree holds => holds.rbChangeChild.bind fun tree holds => lawful.lift ?_ holds
  cases child with
  | leaf => exact absurd rfl nonempty
  | node => rfl

end Single

/-! ### A node with two children -/

section Successor

variable {record : RbNode α} {parent root succ : UInt64}

/-- What is left of the successor at its old place becomes black, or may be one black node
short. -/
theorem Holds.rebalance {stale : UInt64}
    (word : record.rbParentColor = packed stale color) (free : stale &&& 3 = 0)
    (holds : Holds tree (cell succ record + (treeCells node right + rest)) root) :
    Returns (do
      if rootPtr right ≠ 0 then
        rbSetParentColor (rootPtr right) parent .black
        pure 0
      else pure (if ← rbIsBlack succ then parent else 0)) tree
      (if color = .black ∧ right.rootEntry.isNone then parent else 0) fun after =>
      Holds after (cell succ record + (treeCells parent (right.recolor .black) + rest)) root := by
  by_cases empty : right = .leaf
  · subst empty
    refine Returns.read holds.at_first.rbIsBlack ?_
    rw [word, rbIsBlackWord_packed free]
    simp only [Tree.rootEntry, Option.isNone_none, and_true, decide_eq_true_eq]
    exact Returns.pure holds
  · have present := holds.second.rootPtr_ne_zero empty
    rw [if_pos present, if_neg (fun both => empty (isNone_rootEntry.mp both.2))]
    refine ((acts_rbSetParentColor_root empty node parent .black).at_second holds).bind
      fun after holds => ?_
    exact Returns.pure holds

include lawful

/-- The successor is below the right child: it leaves its place to its own right child, and gets
the right child of the node and a copy of its entry. -/
theorem Lawful.relink {last : Frame UInt64 α} {outer : List (Frame UInt64 α)}
    (hangs : last.side = .left)
    (holds : Holds tree (cell node record + (frameCells node (last :: outer) succ +
      (cell succ ⟨packed last.label color, rootPtr right, 0, entry⟩ +
        (treeCells succ right + rest)))) root) :
    Returns (do
      let child2 ← rbChild .right succ
      setRbChild .left last.label child2
      setRbChild .right succ (topPtr outer last.label)
      rbSetParent (topPtr outer last.label) succ
      callbacks.copy node succ
      callbacks.propagate last.label succ
      return (last.label, succ, child2)) tree (last.label, succ, rootPtr right) fun after =>
      Holds after (cell node record + (cell succ ⟨packed last.label color,
          topPtr outer last.label, 0, augment.copy record.entry entry⟩ +
        (frameCells succ (RedBlack.propagate augment (last :: outer) right) (rootPtr right) +
          (treeCells succ right + rest)))) root := by
  have nodeFree := holds.at_first.free
  have succFree := holds.at_third.free
  refine Returns.read (holds.at_third.rbChild .right) ?_
  rw [← hangs]
  refine ((acts_setRbChild_hole last outer node _ (rootPtr right)).at_second holds).bind
    fun tree holds => ?_
  refine ((acts_setRbChild .right succ _ _).at_third holds).bind fun tree holds => ?_
  refine ((acts_rbSetParent_top (List.cons_ne_nil last outer) nodeFree succ
    (rootPtr right)).at_second holds).bind fun tree holds => ?_
  have both := holds.third.second.of_eq (add_assoc ..).symm
  refine ((lawful.copy node succ _ _).at_first both).bind fun tree holds => ?_
  have place := (holds.of_eq (add_assoc ..)).second.third
  have propagated := lawful.propagate tree _ root succ (last :: outer) right succ succFree
    place.label_ne place.fourth.second
  exact propagated.bind fun after holds => Returns.pure holds.third.fourth

/-- The successor is unlinked, and gets the right child of the node and a copy of its entry. -/
theorem Lawful.rbEraseSuccessor
    {nextColor : Color} {next nextRight : Tree UInt64 α} {nextLabel : UInt64} {nextEntry : α}
    {bottom : Spine UInt64 α}
    (below : bottom = spine [] nextColor nextLabel nextEntry nextRight next)
    (holds : Holds tree (cell node record +
      (treeCells node (.node nextColor next nextLabel nextEntry nextRight) + rest)) root) :
    let lower := RedBlack.propagate augment bottom.frames bottom.right
    Returns (rbEraseSuccessor callbacks node nextLabel) tree
      (parentOf bottom.label lower, bottom.label, rootPtr bottom.right) fun after =>
        ∃ parent, parent &&& 3 = 0 ∧ Holds after (cell node record +
          (cell bottom.label ⟨packed parent bottom.color, rootPtr (fill lower bottom.right), 0,
              augment.copy record.entry bottom.entry⟩ +
            (frameCells bottom.label lower (rootPtr bottom.right) +
              (treeCells bottom.label bottom.right + rest)))) root := by
  intro lower
  have nodeFree := holds.at_first.free
  have whole : treeCells node (.node nextColor next nextLabel nextEntry nextRight) =
      frameCells node bottom.frames bottom.label + treeCells (parentOf node bottom.frames)
        (.node bottom.color .leaf bottom.label bottom.entry bottom.right) := by
    have filled := fill_spine [] nextColor nextLabel nextEntry next nextRight
    rw [← below] at filled
    exact (congrArg (treeCells node) filled.symm).trans treeCells_fill
  have cells := holds
  rw [treeCells, add_assoc, add_assoc] at cells
  refine Returns.read (cells.at_second.rbChild .left) ?_
  cases next with
  | leaf =>
    subst below
    refine Returns.read (cells.at_second.rbChild .right) ?_
    have both := cells.of_eq (add_assoc ..).symm
    refine ((lawful.copy node nextLabel _ _).at_first both).bind fun after holds => Returns.pure ?_
    exact ⟨node, nodeFree, holds.of_eq (add_assoc ..)⟩
  | node farColor farLeft farLabel farEntry farRight =>
    let first : Frame UInt64 α := ⟨.left, nextColor, nextLabel, nextEntry, nextRight⟩
    have deeper : bottom = spine [first] farColor farLabel farEntry farRight farLeft := below
    have hangs : first.side = .left := rfl
    obtain ⟨last, outer, inner, lastHangs⟩ :=
      frames_spine hangs [] farColor farLabel farEntry farLeft farRight
    rw [← deeper] at inner
    have top : topPtr outer last.label = nextLabel := by
      have filled := fill_spine [] nextColor nextLabel nextEntry
        (.node farColor farLeft farLabel farEntry farRight) nextRight
      rw [← below] at filled
      have same := congrArg rootPtr filled
      rwa [rootPtr_fill, inner] at same
    have walked : rbSuccessorLoop maxTurns nextLabel farLabel tree =
        .ok ((last.label, bottom.label), tree) := by
      have left := cells.third
      have enough : farLeft.inorder.length < maxTurns := by
        have few := left.card_lt
        rw [Multiset.card_add, card_treeCells, Tree.inorder, List.length_append] at few
        exact lt_of_le_of_lt ((Nat.le_add_right ..).trans (Nat.le_add_right ..)) few
      have parent : parentOf node bottom.frames = last.label := by rw [inner, parentOf]
      rw [← parent, deeper]
      show rbSuccessorLoop maxTurns (parentOf node [first]) farLabel tree = _
      exact left.rbSuccessorLoop enough
    have present : farLabel ≠ 0 := cells.third.rootPtr_ne_zero (by simp)
    show Returns (if farLabel = 0 then _ else rbSuccessorLoop maxTurns nextLabel farLabel >>= _)
      tree _ _
    rw [if_neg present]
    refine Returns.read walked ?_
    rw [whole, inner, treeCells, treeCells] at holds
    have place : Holds tree (cell node record + (frameCells node (last :: outer) bottom.label +
        (cell bottom.label ⟨packed last.label bottom.color, rootPtr bottom.right, 0, bottom.entry⟩ +
          (treeCells bottom.label bottom.right + rest)))) root :=
      holds.of_eq (by rw [parentOf, rootPtr]; abel)
    have lastFree : last.label &&& 3 = 0 := by
      have around := place
      rw [frameCells, add_assoc] at around
      exact around.at_second.free
    have relinked := lawful.relink lastHangs place
    rw [top] at relinked
    have lowerEq : lower = RedBlack.propagate augment (last :: outer) bottom.right :=
      congrArg (RedBlack.propagate augment · bottom.right) inner
    have upper :
        parentOf bottom.label lower = last.label := by rw [lowerEq, parentOf_propagate, parentOf]
    have root : rootPtr (fill lower bottom.right) = nextLabel := by
      rw [rootPtr_fill, lowerEq, topPtr_propagate, topPtr, top]
    rw [upper, root]
    refine relinked.mono fun after holds => ⟨last.label, lastFree, ?_⟩
    rw [lowerEq]
    exact holds

/-- The successor takes the place of the node. -/
theorem Lawful.takePlace
    {lower : List (Frame UInt64 α)} {stale : UInt64} {succColor : Color} {succEntry : α}
    (word : record.rbParentColor = packed (parentOf 0 frames) color)
    (child : record.child .left = rootPtr left) (nonempty : left ≠ .leaf) (free : stale &&& 3 = 0)
    {lifted : Tree UInt64 α} (black : lifted = right.recolor .black)
    (holds : Holds tree (cell node record +
      (cell succ ⟨packed stale succColor, rootPtr (fill lower right), 0, succEntry⟩ +
        (frameCells succ lower (rootPtr right) + (treeCells succ right + (treeCells node left +
          (frameCells 0 frames node + rest)))))) (topPtr frames node)) :
    Returns (do
      let tmp ← rbChild .left node
      setRbChild .left succ tmp
      rbSetParent tmp succ
      let pc := (← deref node).rbParentColor
      rbChangeChild node succ (rbParentOf pc)
      let rebalance ← (do
        if rootPtr right ≠ 0 then
          rbSetParentColor (rootPtr right) (parentOf succ lower) .black
          pure 0
        else pure (if ← rbIsBlack succ then parentOf succ lower else 0))
      modifyNode succ fun rb => { rb with rbParentColor := pc }
      callbacks.propagate succ 0
      return rebalance) tree
      (if succColor = .black ∧ right.rootEntry.isNone then parentOf succ lower else 0) fun after =>
      Holds after
        (frameCells 0 (RedBlack.propagate augment (⟨.right, color, succ, succEntry, left⟩ ::
          frames) (fill lower lifted)) (rootPtr (fill lower lifted)) +
        (treeCells succ (fill lower lifted) + (cell node record + rest))) (topPtr frames succ) := by
  have nodeFree := holds.at_first.free
  have above := holds.sixth.free_parentOf
  refine Returns.read (holds.at_first.rbChild .left) ?_
  rw [child]
  refine ((acts_setRbChild .left succ (rootPtr left) _).at_second holds).bind fun tree holds => ?_
  refine ((acts_rbSetParent_root nonempty nodeFree succ).at_fifth holds).bind fun tree holds => ?_
  refine Returns.read holds.at_first.deref ?_
  simp only [word, rbParentOf_packed above]
  refine holds.sixth.rbChangeChild.bind fun tree holds => ?_
  have lowest := holds.fifth.fourth
  refine (lowest.rebalance rfl free).bind fun tree holds => ?_
  refine ((acts_modifyNode succ _ _).at_first holds).bind fun tree holds => ?_
  have hole : rootPtr (fill lower lifted) = rootPtr (fill lower right) := by
    rw [rootPtr_fill, rootPtr_fill, black, rootPtr_recolor]
  have ready : Holds tree (frameCells 0 (⟨.right, color, succ, succEntry, left⟩ :: frames)
      (rootPtr (fill lower lifted)) + (treeCells succ (fill lower lifted) +
        (cell node record + rest))) (topPtr frames succ) := by
    rw [hole, treeCells_fill, frameCells, black, rootPtr_recolor]
    exact holds.of_eq (by rw [rbNodeOf, RbNode.setChild]; abel)
  refine (lawful.propagate_root rfl ready).bind fun after holds => ?_
  exact Returns.pure holds

/-- Two children. -/
theorem Lawful.unlink_both (leftPresent : left ≠ .leaf)
    (rightPresent : right ≠ .leaf) :
    Unlinks augment callbacks frames color left node entry right := by
  intro tree rest holds
  cases right with
  | leaf => exact absurd rfl rightPresent
  | node nextColor next nextLabel nextEntry nextRight =>
    generalize recordEq : erased frames color left entry _ = record at *
    have leftChild : record.child .left = rootPtr left := recordEq ▸ rfl
    have rightChild : record.child .right = nextLabel := recordEq ▸ rfl
    have word : record.rbParentColor = packed (parentOf 0 frames) color := recordEq ▸ rfl
    have same : record.entry = entry := recordEq ▸ rfl
    have place : Holds tree (cell node record +
        (treeCells node (.node nextColor next nextLabel nextEntry nextRight) +
          (treeCells node left + (frameCells 0 frames node + rest)))) (topPtr frames node) :=
      holds.of_eq (by abel)
    have leftPtr : rootPtr left ≠ 0 := place.third.rootPtr_ne_zero leftPresent
    have rightPtr : nextLabel ≠ 0 := place.second.rootPtr_ne_zero nofun
    obtain ⟨bottom, below⟩ : ∃ bottom, bottom = spine [] nextColor nextLabel nextEntry nextRight
      next := ⟨_, rfl⟩
    refine Returns.read (place.at_first.rbChild .right) ?_
    refine Returns.read (place.at_first.rbChild .left) ?_
    rw [leftChild, rightChild, if_neg leftPtr, if_neg rightPtr]
    refine (lawful.rbEraseSuccessor below place).bind fun tree ⟨stale, free, holds⟩ => ?_
    rw [same] at holds
    obtain ⟨child, childEq⟩ : ∃ child, child = bottom.right.recolor .black := ⟨_, rfl⟩
    obtain ⟨lower, lowerEq⟩ : ∃ lower, lower =
      RedBlack.propagate augment bottom.frames bottom.right := ⟨_, rfl⟩
    obtain ⟨upper, upperEq⟩ : ∃ upper, upper = RedBlack.propagate augment
      (⟨.right, color, bottom.label, augment.copy entry bottom.entry, left⟩ :: frames)
      (fill lower child) := ⟨_, rfl⟩
    have taken := lawful.takePlace word leftChild leftPresent free childEq holds
    rw [← lowerEq, ← upperEq] at taken
    have upperParent :
        parentOf 0 upper = bottom.label := by rw [upperEq, parentOf_propagate, parentOf]
    have unlinked : unlink augment frames color left entry
        (.node nextColor next nextLabel nextEntry nextRight) =
        ⟨lower ++ upper, bottom.color = .black ∧ bottom.right.rootEntry.isNone, child⟩ := by
      have early : lower = RedBlack.propagate augment bottom.frames child := by
        rw [lowerEq, childEq]
        exact propagate_congr augment _ Tree.rootEntry_recolor.symm
      rw [upperEq, early, childEq, below]
      cases left with
      | leaf => exact absurd rfl leftPresent
      | node => rfl
    have value : rebalanceAt ⟨lower ++ upper, bottom.color = .black ∧
        bottom.right.rootEntry.isNone, child⟩ = if bottom.color = .black ∧
        bottom.right.rootEntry.isNone then parentOf bottom.label lower else 0 := by
      rw [rebalanceAt, parentOf_append, upperParent]
      simp only [decide_eq_true_eq]
    rw [unlinked, value, ← lowerEq]
    refine Returns.mono taken fun after holds => ?_
    have top : topPtr upper (topPtr lower (rootPtr child)) = topPtr frames bottom.label := by
      rw [upperEq, topPtr_propagate, topPtr]
    rw [treeCells_fill, rootPtr_fill] at holds
    rw [UnlinkedAt, parentOf_append, frameCells_append, upperParent, topPtr_append, top]
    exact holds.of_eq (by abel)

end Successor

/-! ### The whole of it -/

include lawful

theorem Lawful.rbEraseAugmented :
    Unlinks augment callbacks frames color left node entry right := by
  by_cases leftEmpty : left = .leaf
  · subst leftEmpty
    exact lawful.unlink_right
  · by_cases rightEmpty : right = .leaf
    · subst rightEmpty
      exact lawful.unlink_left leftEmpty
    · exact lawful.unlink_both leftEmpty rightEmpty

/-- `rb_erase_augmented` takes the node out of the tree; the node itself stays as it was. -/
theorem Lawful.rbEraseWith (valid : (fill frames (.node color left node entry right)).Valid)
    (holds : HoldsTree tree (fill frames (.node color left node entry right)) rest) :
    Returns (rbEraseWith callbacks node) tree () fun after =>
      HoldsTree after (erase augment frames color left entry right)
        (cell node (erased frames color left entry right) + rest) := by
  rw [holdsTree_fill, HoldsAt, rootPtr, treeCells, add_assoc, add_assoc] at holds
  obtain ⟨isShort, _⟩ := unlink_spec augment valid
  refine (lawful.rbEraseAugmented _ _ holds).bind fun tree holds => ?_
  rw [erase]
  generalize unlink augment frames color left entry right = unlinked at holds isShort ⊢
  rw [UnlinkedAt] at holds
  rw [rebalanceAt, settle]
  cases short : unlinked.short with
  | false =>
    exact Returns.pure (holdsTree_fill.mpr holds)
  | true =>
    obtain ⟨empty, path⟩ := isShort short
    rw [if_pos rfl, empty]
    rw [empty] at holds
    by_cases top : unlinked.frames = []
    · rw [top] at holds ⊢
      rw [frameCells, zero_add] at holds
      exact Returns.pure holds
    · have present : parentOf 0 unlinked.frames ≠ 0 := by
        obtain ⟨frame, _, cons⟩ := List.exists_cons_of_ne_nil top
        exact cons ▸ holds.label_ne_zero frame (cons ▸ List.mem_cons_self)
      rw [if_pos present]
      exact holds.rbEraseColorLoop lawful.rotate path top holds.length_lt.le

end Xlinux
