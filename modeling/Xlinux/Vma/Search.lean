/-
This file is about `find_vmap_lowest_match`. The search leaves out subtrees in
which no area has the padded length, and it has no way to return `NULL`. It
finds the lowest area that fits exactly if there is one, and that area is the
root of the tree or has the padded length somewhere in its subtree.
-/

import Xlinux.Vma.Order
import Xlinux.Rbtree.Valid

namespace Xlinux

open RedBlack Cells List UInt64 Nat

/-! ### Areas that fit -/

/-- An area can hold an aligned block of a size that starts at or above an address. -/
def Fits (va : VmapArea) (size align vstart : UInt64) : Prop :=
  ∃ start : Nat, align.toNat ∣ start ∧ vstart.toNat ≤ start ∧ va.vaStart.toNat ≤ start ∧
    start + size.toNat ≤ va.vaEnd.toNat

section Fit

variable {va : VmapArea} {size align vstart x : UInt64} {shift : Nat}

/-- Where a block in an area can start at the earliest. -/
def lowerBound (va : VmapArea) (vstart : UInt64) : UInt64 :=
  if va.vaStart > vstart then va.vaStart else vstart

theorem toNat_lowerBound (va : VmapArea) (vstart : UInt64) :
    (lowerBound va vstart).toNat = max va.vaStart.toNat vstart.toNat := by
  unfold lowerBound
  split_ifs with more
  · exact (max_eq_left (lt_iff_toNat_lt.mp more).le).symm
  · exact (max_eq_right (le_iff_toNat_le.mp (UInt64.not_lt.mp more))).symm

theorem nvaStartAddr_eq (va : VmapArea) (align vstart : UInt64) :
    nvaStartAddr va align vstart = alignTo (lowerBound va vstart) align := by
  unfold nvaStartAddr lowerBound
  split <;> rfl

theorem isWithinThisVa_iff (va : VmapArea) (size align vstart : UInt64) :
    isWithinThisVa va size align vstart = true ↔
      (nvaStartAddr va align vstart).toNat + size.toNat ≤ va.vaEnd.toNat ∧
        vstart.toNat ≤ (nvaStartAddr va align vstart).toNat := by
  generalize startEq : nvaStartAddr va align vstart = start
  have sizeLt := size.toNat_lt
  have endLt := va.vaEnd.toNat_lt
  have sum : (start + size).toNat = (start.toNat + size.toNat) % 2 ^ 64 := UInt64.toNat_add ..
  simp only [isWithinThisVa, startEq, lt_iff_toNat_lt]
  split_ifs with bad
  · exact iff_of_false nofun (by omega)
  · rw [decide_eq_true_iff, le_iff_toNat_le]
    omega

/-- The test accepts every area in which a block fits. -/
theorem isWithinThisVa_of_fits (power : align.toNat = 2 ^ shift)
    (fits : Fits va size align vstart) : isWithinThisVa va size align vstart = true := by
  obtain ⟨start, aligned, above, inside, ends⟩ := fits
  have low : (lowerBound va vstart).toNat ≤ start := by
    rw [toNat_lowerBound]
    exact Nat.max_le.mpr ⟨inside, above⟩
  obtain ⟨_, next, _, least⟩ := alignTo_spec power (room_of_multiple power aligned low
    (lt_of_le_of_lt (le_of_add_right_le ends) va.vaEnd.toNat_lt))
  rw [isWithinThisVa_iff, nvaStartAddr_eq]
  have first := least start aligned low
  rw [toNat_lowerBound] at next
  omega

/-- An area that the test accepts fits, if the alignment does not wrap around. -/
theorem fits_of_isWithinThisVa (power : align.toNat = 2 ^ shift)
    (room : (lowerBound va vstart).toNat + (align.toNat - 1) < 2 ^ 64)
    (within : isWithinThisVa va size align vstart = true) : Fits va size align vstart := by
  obtain ⟨aligned, next, _⟩ := alignTo_spec power room
  rw [isWithinThisVa_iff, nvaStartAddr_eq] at within
  rw [toNat_lowerBound] at next
  exact ⟨_, aligned, within.2, (le_max_left ..).trans next, within.1⟩

end Fit

/-! ### The walk -/

/-- The maximum that a subtree has, zero if it is empty. -/
def maxOf (tree : MaxTree) : UInt64 := tree.rootEntry.getD 0

section Walk

variable (areas : VmapAreas) (request : VmapRequest)

/-- The way back up from a place: an area that is returned, or the next node to look at. -/
def rollBack : List MaxFrame → MaxTree → UInt64 ⊕ UInt64
  | [], _ => .inr 0
  | frame :: rest, tree =>
    if request.within (areas frame.label) then .inl frame.label
    else if maxOf ((frame.plug tree).child .right) ≥ request.length ∧
        request.vstart ≤ (areas frame.label).vaStart then
      .inr (rootPtr ((frame.plug tree).child .right))
    else rollBack rest (frame.plug tree)

/-- How the search goes on after the way back up. -/
def goOn (turns : Nat) : UInt64 ⊕ UInt64 → RbM UInt64 UInt64
  | .inl va => pure va
  | .inr node => lowestMatchLoop areas request turns node

variable {areas request} {memory : RbTree UInt64} {frames : List MaxFrame}
  {tree left right : MaxTree} {color : Color} {label entry : UInt64} {turns : Nat}

namespace Represents

variable (represents : Represents memory (fill frames tree))

include represents

theorem getSubtreeMaxSize :
    Xlinux.getSubtreeMaxSize (rootPtr tree) memory = .ok (maxOf tree, memory) := by
  cases tree with
  | leaf => rfl
  | node color left label entry right =>
    rw [getSubtreeMaxSize, rootPtr, if_pos represents.at_place.ne]
    show (deref label memory >>= _) = _
    rw [represents.at_place.deref]
    rfl

theorem getSubtreeMaxSize_child (nonempty : tree ≠ .leaf) (side : Side) :
    Xlinux.getSubtreeMaxSize (rootPtr (tree.child side)) memory =
      .ok (maxOf (tree.child side), memory) := by
  obtain ⟨frame, same⟩ := exists_plug_child side nonempty
  have place : Represents memory (fill (frame :: frames) (tree.child side)) := by rwa [fill, ← same]
  exact place.getSubtreeMaxSize

/-- The way back up, as the code goes it. -/
theorem rollBackLoop (nonempty : tree ≠ .leaf) (enough : frames.length < turns) :
    Xlinux.rollBackLoop areas request turns (rootPtr tree) memory =
      .ok (rollBack areas request frames tree, memory) := by
  induction frames generalizing tree turns with
  | nil =>
    obtain ⟨turns, rfl⟩ := exists_eq_succ_of_ne_zero (ne_zero_of_lt enough)
    rw [rollBackLoop, read_bind (represents.rbParent nonempty)]
    rfl
  | cons frame rest ih =>
    obtain ⟨turns, rfl⟩ := exists_eq_succ_of_ne_zero (ne_zero_of_lt enough)
    have parent : rootPtr (frame.plug tree) = frame.label := rootPtr_join
    have place : Represents memory (fill rest (frame.plug tree)) := represents
    have whole : frame.plug tree ≠ .leaf := Tree.join_ne_leaf
    have above := ih place whole (lt_of_succ_lt_succ enough)
    have child := place.rbChild whole .right
    have nonzero := place.ne_zero_of_ne_leaf whole
    rw [parent] at above child nonzero
    rw [rollBackLoop, read_bind (represents.rbParent nonempty), parentOf, if_neg nonzero,
      rollBack]
    split
    case isTrue => rfl
    case isFalse =>
      rw [read_bind child, read_bind (place.getSubtreeMaxSize_child whole .right)]
      split_ifs
      · rfl
      · exact above

end Represents

/-- One turn of the search at a node of the tree. -/
theorem Represents.lowestMatchLoop
    (represents : Represents memory (fill frames (.node color left label entry right))) :
    Xlinux.lowestMatchLoop areas request (turns + 1) label memory =
      if maxOf left ≥ request.length ∧ request.vstart < (areas label).vaStart then
        Xlinux.lowestMatchLoop areas request turns (rootPtr left) memory
      else if request.within (areas label) then .ok (label, memory)
      else if maxOf right ≥ request.length then
        Xlinux.lowestMatchLoop areas request turns (rootPtr right) memory
      else goOn areas request turns (rollBack areas request frames
        (.node color left label entry right)) memory := by
  have nonempty : RedBlack.Tree.node color left label entry right ≠ .leaf := nofun
  have enough : frames.length < maxTurns := by
    have holds : Holds memory _ _ := represents
    rw [treeCells_fill] at holds
    exact holds.length_lt
  have back : Xlinux.rollBackLoop areas request maxTurns label memory =
      .ok (rollBack areas request frames (.node color left label entry right), memory) :=
    represents.rollBackLoop nonempty enough
  have childLeft := represents.rbChild nonempty .left
  have childRight := represents.rbChild nonempty .right
  have maxLeft := represents.getSubtreeMaxSize_child nonempty .left
  have maxRight := represents.getSubtreeMaxSize_child nonempty .right
  simp only [rootPtr, Tree.child] at childLeft childRight maxLeft maxRight
  rw [Xlinux.lowestMatchLoop, read_bind childLeft, read_bind maxLeft]
  split
  case isTrue => rfl
  case isFalse =>
    split
    case isTrue => rfl
    case isFalse =>
      rw [read_bind childRight, read_bind maxRight]
      split_ifs
      · rfl
      · rw [read_bind back]
        cases rollBack areas request frames (.node color left label entry right) <;> rfl

end Walk

/-! ### Subtrees of the free tree -/

/-- The areas are in order, and every node has the maximum of its subtree. -/
structure Proper (areas : VmapAreas) (tree : MaxTree) : Prop
    extends Ordered areas tree.labels where
  summed : Summed (maxOver (sizeAt areas)) tree

section Proper

variable {areas : VmapAreas} {tree left right : MaxTree} {color : Color} {label entry node : UInt64}

namespace Proper

variable (proper : Proper areas (.node color left label entry right))

include proper

theorem of_left : Proper areas left where
  sorted := (pairwise_append.mp (labels_node ▸ proper.sorted)).1
  nonempty node member := proper.nonempty node (labels_node ▸ mem_append_left _ member)
  summed := proper.summed.2.1

theorem of_right : Proper areas right where
  sorted := (pairwise_append.mp (labels_node ▸ proper.sorted)).2.1.of_cons
  nonempty node member := proper.nonempty node
    (labels_node ▸ mem_append_right _ (mem_cons_of_mem _ member))
  summed := proper.summed.2.2

theorem before (member : node ∈ left.labels) : (areas node).vaEnd ≤ (areas label).vaStart :=
  (pairwise_append.mp (labels_node ▸ proper.sorted)).2.2 node member label mem_cons_self

theorem after (member : node ∈ right.labels) : (areas label).vaEnd ≤ (areas node).vaStart :=
  (pairwise_cons.mp (pairwise_append.mp (labels_node ▸ proper.sorted)).2.1).1 node member

theorem root_nonempty : (areas label).vaStart < (areas label).vaEnd :=
  proper.nonempty label (labels_node ▸ mem_append_right _ mem_cons_self)

end Proper

theorem maxOf_eq (summed : Summed (maxOver (sizeAt areas)) tree) :
    maxOf tree = maxOver (sizeAt areas) tree.labels := by
  rw [maxOf, summed.rootEntry_eq (rootCounts_all _), getD_totalOf]

theorem maxOf_le_plug (areas : VmapAreas) {frame : MaxFrame}
    (summed : Summed (maxOver (sizeAt areas)) (frame.plug tree)) :
    maxOf tree ≤ maxOf (frame.plug tree) := by
  rw [maxOf_eq summed, maxOf_eq (totaled_join.mp summed).2.1, Frame.plug, labels_join]
  refine maxOver_mono fun node member => ?_
  cases frame.side <;> simp [member]

theorem entry_le_maxOf (proper : Proper areas tree) (member : (node, entry) ∈ tree.inorder) :
    entry ≤ maxOf tree := by
  induction tree with
  | leaf => cases member
  | node color left label own right leftLe rightLe =>
    rw [Tree.inorder, mem_append, mem_cons] at member
    rcases member with inLeft | here | inRight
    · exact UInt64.le_trans (leftLe proper.of_left inLeft)
        (@maxOf_le_plug left areas ⟨.left, color, label, own, right⟩ proper.summed)
    · cases here
      exact UInt64.le_refl _
    · exact UInt64.le_trans (rightLe proper.of_right inRight)
        (@maxOf_le_plug right areas ⟨.right, color, label, own, left⟩ proper.summed)

/-! ### A search that fails -/

variable {request : VmapRequest} {memory : RbTree UInt64} {frames : List MaxFrame}

/-- No area of a subtree fits, and those that start high enough do not have the padded length: the
search comes back up from the subtree. -/
theorem Represents.search_fails (represents : Represents memory (fill frames tree))
    (proper : Proper areas tree) (nonempty : tree ≠ .leaf) (positive : 0 < request.length)
    (none : ∀ node ∈ tree.labels, ¬request.within (areas node))
    (small : ∀ node ∈ tree.labels, request.vstart ≤ (areas node).vaStart →
      sizeAt areas node < request.length) (turns : Nat) :
    ∃ more, turns ≤ more ∧
      Xlinux.lowestMatchLoop areas request (turns + tree.labels.length) (rootPtr tree) memory =
        goOn areas request more (rollBack areas request frames tree) memory := by
  induction tree generalizing frames turns with
  | leaf => exact absurd rfl nonempty
  | node color left label entry right leftFails rightFails =>
    have notHere : ¬request.within (areas label) := none label (by simp)
    have notRight : ¬(maxOf right ≥ request.length ∧ request.vstart ≤ (areas label).vaStart) := by
      rintro ⟨large, low⟩
      rw [maxOf_eq proper.summed.2.2] at large
      obtain ⟨node, member, size⟩ := exists_of_le_maxOver positive large
      have wide := proper.root_nonempty
      have order := proper.after member
      exact UInt64.not_lt.mpr size (small node (by simp [member]) (by grind))
    have skip : ∀ frame : MaxFrame, ∀ child, frame.label = label →
        frame.plug child = .node color left label entry right →
        rollBack areas request (frame :: frames) child =
          rollBack areas request frames (.node color left label entry right) := by
      rintro frame child rfl same
      rw [rollBack, if_neg notHere, same, Tree.child, if_neg notRight]
    have length : turns + (RedBlack.Tree.node color left label entry right).labels.length =
        turns + left.labels.length + right.labels.length + 1 := by
      rw [labels_node, length_append, length_cons]
      omega
    have wide : ∀ subtree : MaxTree, maxOf subtree ≥ request.length → subtree ≠ .leaf := by
      rintro _ large rfl
      exact UInt64.not_le.mpr positive large
    rw [rootPtr, length, represents.lowestMatchLoop, if_neg notHere]
    by_cases goLeft : maxOf left ≥ request.length ∧ request.vstart < (areas label).vaStart
    · have place := represents.at_left
      obtain ⟨more, fewer, ran⟩ := leftFails place proper.of_left (wide left goLeft.1)
        (fun node member => none node (by simp [member]))
        (fun node member => small node (by simp [member])) (turns + right.labels.length)
      refine ⟨more, (le_add_right ..).trans fewer, ?_⟩
      rw [if_pos goLeft, add_right_comm, ran, skip _ _ rfl rfl]
    · rw [if_neg goLeft]
      split_ifs with goRight
      · have place := represents.at_right
        obtain ⟨more, fewer, ran⟩ := rightFails place proper.of_right (wide right goRight)
          (fun node member => none node (by simp [member]))
          (fun node member => small node (by simp [member])) (turns + left.labels.length)
        refine ⟨more, (le_add_right ..).trans fewer, ?_⟩
        rw [ran, skip _ _ rfl rfl]
      · exact ⟨_, by omega, rfl⟩

/-! ### A search that succeeds -/

/-- The lowest area that fits is found, if it is the root of the subtree or has the padded length in
its own subtree. -/
theorem Represents.search_finds {target maximum : UInt64} {turns : Nat}
    (represents : Represents memory (fill frames tree)) (proper : Proper areas tree)
    (member : (target, maximum) ∈ tree.inorder)
    (reaches : rootPtr tree = target ∨ request.length ≤ maximum)
    (within : request.within (areas target)) (below : request.vstart < (areas target).vaEnd)
    (none : ∀ node ∈ tree.labels, (areas node).vaStart < (areas target).vaStart →
      ¬request.within (areas node))
    (easy : (areas target).vaStart = 0 ∨ 0 < request.length ∧
      ∀ node ∈ tree.labels, (areas node).vaStart < (areas target).vaStart →
        request.vstart ≤ (areas node).vaStart → sizeAt areas node < request.length)
    (enough : tree.labels.length ≤ turns) :
    Xlinux.lowestMatchLoop areas request turns (rootPtr tree) memory = .ok (target, memory) := by
  induction tree generalizing frames turns with
  | leaf => cases member
  | node color left label entry right leftFinds rightFinds =>
    rw [labels_node, length_append, length_cons] at enough
    obtain ⟨turns, rfl⟩ := exists_eq_succ_of_ne_zero (show turns ≠ 0 by omega)
    have placeLeft := represents.at_left
    have placeRight := represents.at_right
    rw [rootPtr] at reaches ⊢
    rw [Tree.inorder, mem_append, mem_cons] at member
    -- if the target is not on the left, the search comes back from there
    have leftFails : (areas label).vaStart ≤ (areas target).vaStart →
        maxOf left ≥ request.length ∧ request.vstart < (areas label).vaStart →
        ∃ more, right.labels.length ≤ more ∧
          Xlinux.lowestMatchLoop areas request turns (rootPtr left) memory =
            goOn areas request more (rollBack areas request
              (⟨.left, color, label, entry, right⟩ :: frames) left) memory := by
      intro order goLeft
      have high : request.vstart < (areas target).vaStart := UInt64.lt_of_lt_of_le goLeft.2 order
      have earlier : ∀ node ∈ left.labels, (areas node).vaStart < (areas target).vaStart := by
        intro node member
        exact UInt64.lt_of_lt_of_le (proper.of_left.nonempty node member)
          (UInt64.le_trans (proper.before member) order)
      rcases easy with zero | ⟨positive, small⟩
      · rw [zero] at high
        exact absurd high UInt64.not_lt_zero
      · have wide : left ≠ .leaf := by
          rintro rfl
          exact UInt64.not_le.mpr positive goLeft.1
        obtain ⟨more, _, ran⟩ := placeLeft.search_fails proper.of_left wide positive
          (fun node member => none node (by simp [member]) (earlier node member))
          (fun node member => small node (by simp [member]) (earlier node member))
          (turns - left.labels.length)
        rw [Nat.sub_add_cancel (by omega)] at ran
        exact ⟨more, by omega, ran⟩
    rw [represents.lowestMatchLoop]
    rcases member with inLeft | here | inRight
    · have order := proper.before (mem_map_of_mem inLeft)
      have reach : request.length ≤ maximum := by
        refine reaches.resolve_left fun same => ?_
        exact UInt64.not_le.mpr (same ▸ proper.root_nonempty) order
      have goLeft : maxOf left ≥ request.length ∧ request.vstart < (areas label).vaStart :=
        ⟨UInt64.le_trans reach (entry_le_maxOf proper.of_left inLeft),
          UInt64.lt_of_lt_of_le below order⟩
      rw [if_pos goLeft]
      refine leftFinds placeLeft proper.of_left inLeft (.inr reach)
        (fun node member => none node (by simp [member])) ?_ (by omega)
      exact easy.imp id fun easy => ⟨easy.1, fun node member => easy.2 node (by simp [member])⟩
    · cases here
      by_cases goLeft : maxOf left ≥ request.length ∧ request.vstart < (areas target).vaStart
      · obtain ⟨more, _, ran⟩ := leftFails (UInt64.le_refl _) goLeft
        rw [if_pos goLeft, ran, rollBack, if_pos within]
        rfl
      · rw [if_neg goLeft, if_pos within]
    · have order := proper.after (mem_map_of_mem inRight)
      have earlier : (areas label).vaStart < (areas target).vaStart :=
        UInt64.lt_of_lt_of_le proper.root_nonempty order
      have notHere : ¬request.within (areas label) := none label (by simp) earlier
      have reach : request.length ≤ maximum := reaches.resolve_left (by grind)
      have large := UInt64.le_trans reach (entry_le_maxOf proper.of_right inRight)
      have finds : ∀ turns, right.labels.length ≤ turns →
          Xlinux.lowestMatchLoop areas request turns (rootPtr right) memory =
            .ok (target, memory) := by
        intro turns enough
        refine rightFinds placeRight proper.of_right inRight (.inr reach)
          (fun node member => none node (by simp [member])) ?_ enough
        exact easy.imp id fun easy => ⟨easy.1, fun node member => easy.2 node (by simp [member])⟩
      by_cases goLeft : maxOf left ≥ request.length ∧ request.vstart < (areas label).vaStart
      · obtain ⟨more, enoughRight, ran⟩ := leftFails (UInt64.le_of_lt earlier) goLeft
        rw [if_pos goLeft, ran, rollBack, if_neg notHere]
        rw [if_pos ⟨large, UInt64.le_of_lt goLeft.2⟩]
        exact finds more enoughRight
      · rw [if_neg goLeft, if_neg notHere, if_pos large]
        exact finds turns (by omega)

/-! ### Where a search can end -/

/-- A node that the search looks at: the root of the tree, or one with the padded length in its
subtree. -/
def Visited (request : VmapRequest) (tree : MaxTree) (node : UInt64) : Prop :=
  ∃ frames subtree, tree = fill frames subtree ∧ subtree ≠ .leaf ∧ rootPtr subtree = node ∧
    (frames = [] ∨ request.length ≤ maxOf subtree)

/-- The way back up ends at a node to return, or to go on with. -/
def Reached (areas : VmapAreas) (request : VmapRequest) (tree : MaxTree) : UInt64 ⊕ UInt64 → Prop
  | .inl va => Visited request tree va ∧ request.within (areas va)
  | .inr node => node = 0 ∨ Visited request tree node

theorem visited_child {whole : MaxTree} (side : Side) (nonempty : tree ≠ .leaf)
    (place : whole = fill frames tree) (large : maxOf (tree.child side) ≥ request.length) :
    rootPtr (tree.child side) = 0 ∨ Visited request whole (rootPtr (tree.child side)) := by
  by_cases empty : tree.child side = .leaf
  · exact .inl (empty ▸ rfl)
  · obtain ⟨frame, same⟩ := exists_plug_child side nonempty
    refine .inr ⟨frame :: frames, tree.child side, ?_, empty, rfl, .inr large⟩
    rw [place, fill, ← same]

theorem reached_rollBack {whole : MaxTree} (summed : Summed (maxOver (sizeAt areas)) whole)
    (place : whole = fill frames tree) (large : frames = [] ∨ request.length ≤ maxOf tree) :
    Reached areas request whole (rollBack areas request frames tree) := by
  induction frames generalizing tree with
  | nil => exact .inl rfl
  | cons frame rest ih =>
    have parent : rootPtr (frame.plug tree) = frame.label := rootPtr_join
    have tall : frame.plug tree ≠ .leaf := Tree.join_ne_leaf
    have wide : request.length ≤ maxOf (frame.plug tree) := by
      refine UInt64.le_trans (large.resolve_left (cons_ne_nil _ _)) (maxOf_le_plug areas ?_)
      exact totaled_of_fill (place ▸ summed)
    rw [rollBack]
    split_ifs with within right
    · exact ⟨⟨rest, frame.plug tree, place, tall, parent, .inr wide⟩, within⟩
    · exact visited_child .right tall place right.1
    · exact ih place (.inr wide)

/-- The search returns only what it has looked at and accepted. -/
theorem Represents.search_visited {after : RbTree UInt64} {node found : UInt64} {turns : Nat}
    (represents : Represents memory tree) (summed : Summed (maxOver (sizeAt areas)) tree)
    (start : node = 0 ∨ Visited request tree node)
    (ran : Xlinux.lowestMatchLoop areas request turns node memory = .ok (found, after)) :
    (Visited request tree found ∧ request.within (areas found)) ∧ after = memory := by
  induction turns generalizing node with
  | zero => cases ran
  | succ turns ih =>
    rcases start with rfl | visited
    · cases ran
    · obtain ⟨frames, subtree, rfl, nonempty, rfl, large⟩ := visited
      cases subtree with
      | leaf => exact absurd rfl nonempty
      | node color left label entry right =>
        rw [rootPtr, represents.lowestMatchLoop] at ran
        split_ifs at ran with goLeft within goRight
        · exact ih (visited_child .left nonempty rfl goLeft.1) ran
        · cases ran
          exact ⟨⟨⟨frames, _, rfl, nonempty, rfl, large⟩, within⟩, rfl⟩
        · exact ih (visited_child .right nonempty rfl goRight) ran
        · have reached : Reached areas request _ (rollBack areas request frames _) :=
            reached_rollBack summed rfl large
          generalize rollBack areas request frames _ = next at ran reached
          cases next with
          | inl va =>
            cases ran
            exact ⟨reached, rfl⟩
          | inr node => exact ih reached ran

end Proper

/-! ### The search from the root -/

/-- The tree of the free areas in memory. -/
structure FreeTree (areas : VmapAreas) (memory : RbTree UInt64) (tree : MaxTree) :
    Prop where
  represents : Represents memory tree
  proper : Proper areas tree

def VmapRequest.Fits (request : VmapRequest) (va : VmapArea) : Prop :=
  Xlinux.Fits va request.size request.align request.vstart

/-- The area of lowest start that fits. -/
structure LowestFit (areas : VmapAreas) (request : VmapRequest) (tree : MaxTree)
    (node : UInt64) : Prop where
  member : node ∈ tree.labels
  fits : request.Fits (areas node)
  lowest : ∀ other ∈ tree.labels, request.Fits (areas other) →
    (areas node).vaStart ≤ (areas other).vaStart

section Root

variable {areas : VmapAreas} {request : VmapRequest} {memory : RbTree UInt64}
  {tree : MaxTree} {node target : UInt64} {shift : Nat}

/-- What the search has looked at. -/
theorem Visited.root_or_large (represents : Represents memory tree)
    (visited : Visited request tree node) :
    node ≠ 0 ∧ (node = memory.rbNode ∨ request.length ≤ (memory.nodes node).entry) := by
  obtain ⟨_, subtree, rfl, nonempty, rfl, large⟩ := visited
  refine ⟨represents.ne_zero_of_ne_leaf nonempty, large.imp ?_ ?_⟩
  · rintro rfl
    exact represents.root.symm
  · cases subtree with
    | leaf => exact absurd rfl nonempty
    | node =>
      rw [rootPtr, represents.at_place.same]
      exact id

section

theorem VmapRequest.toNat_length (power : request.align.toNat = 2 ^ shift)
    (room : request.size.toNat + (request.align.toNat - 1) < 2 ^ 64) :
    request.length.toNat = request.size.toNat + (request.align.toNat - 1) := by
  have same : request.length = request.size + (request.align - 1) := by
    rw [VmapRequest.length, UInt64.sub_eq_add_neg, UInt64.sub_eq_add_neg, UInt64.add_assoc]
  rw [same, toNat_add_of_lt (by rwa [toNat_mask power]), toNat_mask power]

variable (lowest : LowestFit areas request tree target)

include lowest

/-- An area before the lowest one that fits is not accepted. -/
theorem LowestFit.not_within (power : request.align.toNat = 2 ^ shift) (member : node ∈ tree.labels)
    (earlier : (areas node).vaStart < (areas target).vaStart) : ¬request.within (areas node) := by
  intro within
  obtain ⟨start, aligned, above, inside, ends⟩ := lowest.fits
  have low : (lowerBound (areas node) request.vstart).toNat ≤ start := by
    rw [toNat_lowerBound]
    exact Nat.max_le.mpr ⟨(lt_iff_toNat_lt.mp earlier).le.trans inside, above⟩
  have room := room_of_multiple power aligned low
    (lt_of_le_of_lt (le_of_add_right_le ends) (areas target).vaEnd.toNat_lt)
  exact UInt64.not_lt.mpr
    (lowest.lowest node member (fits_of_isWithinThisVa power room within)) earlier

/-- An area before the lowest one that fits, and not below the start, does not have the padded
length, unless that wraps around. -/
theorem LowestFit.small (power : request.align.toNat = 2 ^ shift) (proper : Proper areas tree)
    (length : request.length.toNat = request.size.toNat + (request.align.toNat - 1))
    (member : node ∈ tree.labels) (earlier : (areas node).vaStart < (areas target).vaStart)
    (above : request.vstart ≤ (areas node).vaStart) : sizeAt areas node < request.length := by
  obtain ⟨start, aligned, _, inside, ends⟩ := lowest.fits
  rw [← UInt64.not_le]
  intro large
  refine UInt64.not_lt.mpr (lowest.lowest node member ?_) earlier
  have room := room_of_multiple power aligned ((lt_iff_toNat_lt.mp earlier).le.trans inside)
    (lt_of_le_of_lt (le_of_add_right_le ends) (areas target).vaEnd.toNat_lt)
  obtain ⟨multiple, next, _, _⟩ := alignTo_spec power room
  refine ⟨_, multiple, (le_iff_toNat_le.mp above).trans next, next, ?_⟩
  have size : (sizeAt areas node).toNat = (areas node).vaEnd.toNat - (areas node).vaStart.toNat :=
    toNat_sub_of_toNat_le (lt_iff_toNat_lt.mp (proper.nonempty node member)).le
  have order := lt_iff_toNat_lt.mp (proper.nonempty node member)
  rw [le_iff_toNat_le] at large
  omega

/-- A padded length that wraps around leaves room only at address zero. -/
theorem LowestFit.start_eq_zero (wraps : 2 ^ 64 ≤ request.size.toNat + (request.align.toNat - 1)) :
    (areas target).vaStart = 0 := by
  obtain ⟨start, aligned, _, inside, _⟩ := lowest.fits
  have endLt := (areas target).vaEnd.toNat_lt
  have zero : start = 0 := eq_zero_of_dvd_of_lt aligned (by omega)
  exact UInt64.toNat_inj.mp (le_zero.mp (inside.trans_eq zero))

/-- The search finds the lowest area that fits if it does not leave it out. -/
theorem LowestFit.findVmapLowestMatch (free : FreeTree areas memory tree)
    (positive : 0 < request.size) (power : request.align.toNat = 2 ^ shift)
    (reaches : target = memory.rbNode ∨ request.length ≤ (memory.nodes target).entry) :
    Xlinux.findVmapLowestMatch areas request memory = .ok (target, memory) := by
  obtain ⟨⟨label, entry⟩, found, rfl⟩ := mem_map.mp lowest.member
  have place : Represents memory (fill [] tree) := free.represents
  have entryEq : (memory.nodes label).entry = entry := by
    obtain ⟨_, _, _, _, rfl⟩ := exists_fill_of_mem found
    rw [free.represents.at_place.same]
  have few := free.represents.card_lt
  rw [card_treeCells] at few
  show lowestMatchLoop areas request maxTurns memory.rbNode memory = _
  rw [free.represents.root] at reaches ⊢
  refine place.search_finds free.proper found ?_ (isWithinThisVa_of_fits power lowest.fits) ?_
    (fun node => lowest.not_within power) ?_ ?_
  · rw [← entryEq]
    exact reaches.imp Eq.symm id
  · obtain ⟨_, _, _, _, _⟩ := lowest.fits
    have sizePos := lt_iff_toNat_lt.mp positive
    exact lt_iff_toNat_lt.mpr (by omega)
  · rcases lt_or_ge (request.size.toNat + (request.align.toNat - 1)) (2 ^ 64) with room | wraps
    · have length := VmapRequest.toNat_length power room
      refine .inr ⟨lt_iff_toNat_lt.mpr ?_, fun node member =>
        lowest.small power free.proper length member⟩
      rw [length]
      exact Nat.lt_add_right _ (lt_iff_toNat_lt.mp positive)
    · exact .inl (lowest.start_eq_zero wraps)
  · rw [Tree.labels, length_map]
    exact few.le

end

end Root

/-- What the search from the root returns. -/
theorem FreeTree.findVmapLowestMatch_visited {areas : VmapAreas} {request : VmapRequest}
    {memory after : RbTree UInt64} {tree : MaxTree} {found : UInt64}
    (free : FreeTree areas memory tree)
    (ran : findVmapLowestMatch areas request memory = .ok (found, after)) :
    (Visited request tree found ∧ request.within (areas found)) ∧ after = memory := by
  have start : memory.rbNode = 0 ∨ Visited request tree memory.rbNode := by
    rcases eq_or_ne tree .leaf with rfl | empty
    · exact .inl free.represents.root
    · exact .inr ⟨[], tree, rfl, empty, free.represents.root.symm, .inl rfl⟩
  exact free.represents.search_visited free.proper.summed start ran

/-- The search returns the lowest area that fits, or `NULL` if there is none, exactly if there is
one, and it is the root or has the padded length in its subtree. -/
theorem findVmapLowestMatch_lowest_iff (areas : VmapAreas) (request : VmapRequest)
    (memory : RbTree UInt64) (tree : Tree UInt64 UInt64) (free : FreeTree areas memory tree)
    (positive : 0 < request.size) (power : ∃ shift, request.align.toNat = 2 ^ shift) :
    (∃ found, findVmapLowestMatch areas request memory = .ok (found, memory) ∧
      (found = 0 ∧ (∀ node ∈ tree.labels, ¬request.Fits (areas node)) ∨
        LowestFit areas request tree found)) ↔
    ∃ node, LowestFit areas request tree node ∧
      (node = memory.rbNode ∨ request.length ≤ (memory.nodes node).entry) := by
  obtain ⟨shift, power⟩ := power
  constructor
  · rintro ⟨found, ran, result⟩
    have visited := free.findVmapLowestMatch_visited ran
    obtain ⟨nonzero, reaches⟩ := visited.1.1.root_or_large free.represents
    exact ⟨found, result.resolve_left fun none => nonzero none.1, reaches⟩
  · rintro ⟨node, lowest, reaches⟩
    exact ⟨node, lowest.findVmapLowestMatch free positive power reaches, .inr lowest⟩

/-- An area of one page, and to its right one of four pages. -/
def twoAreas : VmapAreas := fun node => if node = 8 then ⟨0x1000, 0x2000⟩ else ⟨0x4000, 0x8000⟩

def twoAreasTree : MaxTree :=
  .node .black .leaf 8 0x4000 (.node .red .leaf 16 0x4000 .leaf)

def twoAreasMemory : RbTree UInt64 where
  nodes ptr := if ptr = 8 then ⟨1, 16, 0, 0x4000⟩ else ⟨8, 0, 0, 0x4000⟩
  rbNode := 8

theorem forall_twoAreas {property : UInt64 → Prop} :
    (∀ node ∈ twoAreasTree.labels, property node) ↔ property 8 ∧ property 16 := by
  rw [show twoAreasTree.labels = [8, 16] from rfl, forall_mem_cons, forall_mem_singleton]

theorem freeTree_twoAreas : FreeTree twoAreas twoAreasMemory twoAreasTree where
  represents := {
    owns := {
      nodup := by decide
      usable := by decide
      holds := by simp [twoAreasTree, treeCells, cell, twoAreasMemory, rootPtr, packed, colorWord] }
    root := rfl }
  proper := {
    sorted := by decide
    nonempty := forall_twoAreas.mpr ⟨by decide, by decide⟩
    summed := ⟨fun _ => rfl, trivial, fun _ => rfl, trivial, trivial⟩ }

/-- The lowest area that fits is found at the root. -/
theorem findVmapLowestMatch_lowest_iff_twoAreas :
    ∃ found, findVmapLowestMatch twoAreas ⟨0x1000, 0x1000, 0⟩ twoAreasMemory =
        .ok (found, twoAreasMemory) ∧
      (found = 0 ∧ (∀ node ∈ twoAreasTree.labels,
          ¬VmapRequest.Fits ⟨0x1000, 0x1000, 0⟩ (twoAreas node)) ∨
        LowestFit twoAreas ⟨0x1000, 0x1000, 0⟩ twoAreasTree found) := by
  refine (findVmapLowestMatch_lowest_iff twoAreas ⟨0x1000, 0x1000, 0⟩ twoAreasMemory twoAreasTree
    freeTree_twoAreas (by decide) ⟨12, rfl⟩).mpr ⟨8, ⟨by decide, ?_, ?_⟩, .inl rfl⟩
  · exact ⟨0x1000, by decide, by decide, by decide, by decide⟩
  · exact forall_twoAreas.mpr ⟨fun _ => by decide, fun _ => by decide⟩

/-- A block of four pages fits into the second area, and one of eight pages nowhere; in either case
the search goes on to `NULL`. -/
theorem findVmapLowestMatch_twoAreas :
    FreeTree twoAreas twoAreasMemory twoAreasTree ∧
    (VmapRequest.Fits ⟨0x4000, 0x4000, 0⟩ (twoAreas 16) ∧
      findVmapLowestMatch twoAreas ⟨0x4000, 0x4000, 0⟩ twoAreasMemory = .error .nullPointer) ∧
    ((∀ node ∈ twoAreasTree.labels, ¬VmapRequest.Fits ⟨0x8000, 1, 0⟩ (twoAreas node)) ∧
      findVmapLowestMatch twoAreas ⟨0x8000, 1, 0⟩ twoAreasMemory = .error .nullPointer) := by
  refine ⟨freeTree_twoAreas, ⟨⟨0x4000, by decide, by decide, by decide, by decide⟩, rfl⟩, ?_, rfl⟩
  rintro node member ⟨start, _, _, inside, ends⟩
  have small : ∀ node ∈ twoAreasTree.labels,
      (twoAreas node).vaEnd.toNat < (twoAreas node).vaStart.toNat + 0x8000 :=
    forall_twoAreas.mpr ⟨by decide, by decide⟩
  exact absurd ((Nat.add_le_add_right inside _).trans ends) (not_le.mpr (small node member))

end Xlinux
